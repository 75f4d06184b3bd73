import MyMinecraft.Entities
import MyMinecraft.Lib.CString

/-! The name in a 0x07 packet.

The packet carries 64 bytes of name and the record has room for them; the handler
copies four (`keptName_toList`). The record is zero behind those, so what arrives is
a valid shorter name: the whole name exactly when it has at most four bytes. -/
namespace MyMinecraft
open Lib.CString (text)
variable (overrun : Vector UInt8 64 → List UInt8)

/-- What the handler keeps of the name. -/
def keptName (name : Vector UInt8 64) : Vector UInt8 64 :=
  Vector.ofFn fun i => if i.val < 4 then name.get i else 0

/-- An array that is copied in part and zero elsewhere. -/
theorem toList_copied {n : Nat} (k : Nat) (hk : k ≤ n) (v : Vector UInt8 n) :
    (Vector.ofFn fun i : Fin n => if i.val < k then v.get i else 0).toList =
      v.toList.take k ++ List.replicate (n - k) 0 := by
  refine List.ext_getElem (by simp [hk]) fun i hi _ => ?_
  have hin : i < n := by simpa using hi
  rw [Vector.getElem_toList, Vector.getElem_ofFn]
  by_cases h : i < k
  · rw [List.getElem_append_left (by simp [h, hin]), List.getElem_take, Vector.getElem_toList, if_pos h]
    rfl
  · rw [List.getElem_append_right (by simp; omega), List.getElem_replicate, if_neg h]

theorem keptName_toList (name : Vector UInt8 64) :
    (keptName name).toList = name.toList.take 4 ++ List.replicate 60 0 :=
  toList_copied 4 (by decide) name

/-- The name the entity gets. -/
theorem cString_keptName (name : Vector UInt8 64) :
    cString overrun (keptName name) = (text name.toList).take 4 := by
  have hzero : 0 ∈ (keptName name).toList := by
    rw [keptName_toList]
    exact List.mem_append_right _ (List.mem_replicate.mpr ⟨by decide, rfl⟩)
  have hbehind : (List.replicate 60 (0 : UInt8)).headD 0 = 0 := rfl
  rw [cString, if_pos hzero, keptName_toList, ← Lib.CString.text_take]
  exact (Lib.CString.text_append_iff _ _).mpr (.inr hbehind)

/-- The entity at `id` has the name, and nothing else has changed. -/
structure Renamed (before after : Entities) (id : Int) (name : List UInt8) : Prop where
  named : ∀ e, before.lookup id = some e → after.lookup id = some {e with name}
  others : ∀ other, other ≠ id → after.lookup other = before.lookup other

theorem setName_renamed_iff (entities : Entities) (emd : EntityMetaData) (name : List UInt8)
    (hid : emd.id ∈ entities) :
    Renamed entities (setName overrun entities emd) emd.id name ↔ cString overrun emd.name = name := by
  obtain ⟨e, he⟩ := Option.isSome_iff_exists.mp (AList.lookup_isSome.mpr hid)
  have hset : (setName overrun entities emd).lookup emd.id =
      some {e with name := cString overrun emd.name} := by
    rw [setName_lookup, if_pos rfl, he]
    rfl
  constructor
  · intro h
    have hnamed := Option.some.inj (hset.symm.trans (h.named e he))
    exact congrArg Entity.name hnamed
  · intro h
    subst h
    refine ⟨fun e' he' => ?_, fun other hne => ?_⟩
    · obtain rfl := Option.some.inj (he.symm.trans he')
      exact hset
    · rw [setName_lookup, if_neg hne]

/-- What a 0x07 packet does, received with nothing else pending. -/
theorem metaData_renamed_iff (host : Lib.Wire.Endian) {c : Client} (hb : c.buffer.Clean)
    (hidle : c.data.Idle) (id : Int32) (name : Vector UInt8 64) (rest : List UInt8)
    (hs : c.socket = (Packet.entityMetaData id name).bytes ++ rest) {entities : Entities}
    (hid : id.toInt ∈ entities) (expected : List UInt8) :
    (∃ c', c.receive host = .ok (true, c') ∧
      Renamed entities (updateEntities overrun entities c'.data).1 id.toInt expected) ↔
    (text name.toList).take 4 = expected := by
  obtain ⟨c', hcall, happlied⟩ :=
    Client.receive_applied overrun c host (.entityMetaData id name) rest rfl hb hidle hs entities
  rw [← cString_keptName overrun, ← setName_renamed_iff overrun entities ⟨id.toInt, keptName name⟩ _ hid]
  constructor
  · intro h
    obtain ⟨c'', hcall', hrenamed⟩ := h
    obtain ⟨_, rfl⟩ := Prod.mk.inj (Except.ok.inj (hcall.symm.trans hcall'))
    rwa [happlied] at hrenamed
  · intro h
    refine ⟨c', hcall, ?_⟩
    rwa [happlied]

/-- **A 0x07 packet carries the whole name exactly when the name has at most four bytes.** -/
theorem metaData_named_iff (host : Lib.Wire.Endian) (c : Client) (hc : Client.Reachable host c)
    (hidle : c.data.Idle) (id : Int32) (name : Vector UInt8 64) (rest : List UInt8)
    (hs : c.socket = (Packet.entityMetaData id name).bytes ++ rest) (entities : Entities)
    (hid : id.toInt ∈ entities) :
    (∃ c', c.receive host = .ok (true, c') ∧
      Renamed entities (updateEntities overrun entities c'.data).1 id.toInt (text name.toList)) ↔
    (text name.toList).length ≤ 4 := by
  rw [metaData_renamed_iff overrun host (hc.clean host) hidle id name rest hs hid, List.take_eq_self_iff]

/-- The four letters `Alex`. -/
def alex : Vector UInt8 64 :=
  Vector.ofFn fun i => [0x41, 0x6c, 0x65, 0x78].getD i.val 0

/-- The five letters `Steve`. -/
def steve : Vector UInt8 64 :=
  Vector.ofFn fun i => [0x53, 0x74, 0x65, 0x76, 0x65].getD i.val 0

/-- A client with a 0x07 packet before it that carries the name. -/
def nameWaiting (name : Vector UInt8 64) : Client :=
  ⟨Buffer.zero, ⟨[], [], [], [], []⟩, 0, (Packet.entityMetaData 5 name).bytes ++ []⟩

/-- Entity 5, alone. -/
def entityFive : Entities := insertOrSet (fun _ => []) ∅ ⟨5, ⟨0, 0, 0⟩, 0, 0, Vector.replicate 64 0⟩

theorem metaData_named_alex : ∃ c', (nameWaiting alex).receive .little = .ok (true, c') ∧
    Renamed entityFive (updateEntities (fun _ => []) entityFive c'.data).1 5 (text alex.toList) :=
  (metaData_named_iff (fun _ => []) .little (nameWaiting alex) (.start 0 _) ⟨rfl, rfl, rfl⟩ 5 alex [] rfl
    entityFive (by decide)).mpr (by decide)

/-- `Steve` arrives as `Stev`. -/
theorem steve_cut : ¬ ∃ c', (nameWaiting steve).receive .little = .ok (true, c') ∧
    Renamed entityFive (updateEntities (fun _ => []) entityFive c'.data).1 5 (text steve.toList) := by
  have hclean : (nameWaiting steve).buffer.Clean := Buffer.clean_zero
  have hfive : (5 : Int32).toInt ∈ entityFive := by decide
  have hcut : (text steve.toList).take 4 ≠ text steve.toList := by decide
  intro h
  exact hcut ((metaData_renamed_iff (fun _ => []) .little hclean ⟨rfl, rfl, rfl⟩ 5 steve [] rfl hfive _).mp h)

end MyMinecraft
