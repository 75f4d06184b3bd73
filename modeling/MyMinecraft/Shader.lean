import MyMinecraft.ChunkVertices
import MyMinecraft.Lib.Wire

/-! The vertex shader's side of the packing (`shaders/cube_shadow.vs`).

The shader takes a packed vertex apart with its own shifts and masks.
`unpack_packVertex` is the round trip: each field comes back as its own low bits. -/
namespace MyMinecraft.Shader
open Lib.BitField ChunkVertices

/-- What `main` reads from one packed vertex. Positions and texture coordinates are
whole numbers; the normal is undefined when its index is past the table. -/
structure Vertex where
  position : Ivec3
  texCoords : Nat × Nat
  normal : Option Ivec3
  blockType : Nat
  deriving DecidableEq

def unpackPosition (packed : UInt32) : Ivec3 :=
  ⟨((packed >>> 0) &&& 0x1F).toNat, ((packed >>> 5) &&& 0x1F).toNat, ((packed >>> 10) &&& 0x1F).toNat⟩

def unpackTexCoords (packed : UInt32) : Nat × Nat :=
  (((packed >>> 15) &&& 1).toNat, ((packed >>> 16) &&& 1).toNat)

def normals : Vector Ivec3 6 :=
  #v[⟨0, 0, -1⟩, ⟨0, 0, 1⟩, ⟨-1, 0, 0⟩, ⟨1, 0, 0⟩, ⟨0, -1, 0⟩, ⟨0, 1, 0⟩]

def unpackNormal (packed : UInt32) : Option Ivec3 := normals[((packed >>> 17) &&& 7).toNat]?

def unpackBlockType (packed : UInt32) : Nat := ((packed >>> 20) &&& 31).toNat

def unpack (packed : UInt32) : Vertex :=
  ⟨unpackPosition packed, unpackTexCoords packed, unpackNormal packed, unpackBlockType packed⟩

/-- Where the shader puts the vertex: `aPos + chunkpos`. -/
def worldpos (chunkpos : Ivec3) (packed : UInt32) : Ivec3 := unpackPosition packed + chunkpos

/-! ### The round trip -/

/-- A masked and shifted value, as long as it stays in the word. -/
theorem masked_toNat (v mask shift : UInt32) (w s : Nat) (hm : mask.toNat = 2 ^ w - 1)
    (hs : shift.toNat = s) (hfit : w + s < 32) :
    ((v &&& mask) <<< shift).toNat = (v.toNat % 2 ^ w) <<< s := by
  have hlt : (v.toNat % 2 ^ w) <<< s < 2 ^ 32 := by
    rw [Nat.shiftLeft_eq]
    calc v.toNat % 2 ^ w * 2 ^ s < 2 ^ w * 2 ^ s :=
          Nat.mul_lt_mul_of_pos_right (Nat.mod_lt _ (Nat.two_pow_pos w)) (Nat.two_pow_pos s)
      _ = 2 ^ (w + s) := (Nat.pow_add 2 w s).symm
      _ ≤ 2 ^ 32 := Nat.pow_le_pow_right (by decide) (by omega)
  rw [UInt32.toNat_shiftLeft, UInt32.toNat_and, hm, Nat.and_two_pow_sub_one_eq_mod, hs,
    Nat.mod_eq_of_lt (by omega : s < 32), Nat.mod_eq_of_lt hlt]

/-- A field read with a shift and a mask. -/
theorem field_toNat (packed mask shift : UInt32) (w s : Nat) (hm : mask.toNat = 2 ^ w - 1)
    (hs : shift.toNat = s) (hfit : s < 32) :
    ((packed >>> shift) &&& mask).toNat = packed.toNat >>> s % 2 ^ w := by
  rw [UInt32.toNat_and, UInt32.toNat_shiftRight, hm, Nat.and_two_pow_sub_one_eq_mod, hs,
    Nat.mod_eq_of_lt hfit]

theorem ofInt_toNat {k : Nat} (h : k < 2 ^ 32) : (UInt32.ofInt (k : Int)).toNat = k := by
  rw [UInt32.ofInt, UInt32.toNat_ofNat']
  omega

/-- The packed word is its seven fields laid end to end. -/
theorem packVertex_toNat {x y z : Nat} (hx : x < 2 ^ 32) (hy : y < 2 ^ 32) (hz : z < 2 ^ 32)
    (u v n texture : UInt8) :
    (packVertex x y z u v n texture).toNat =
      packAt 0 [(5, x), (5, y), (5, z), (1, u.toNat), (1, v.toNat), (3, n.toNat),
        (5, texture.toNat)] := by
  simp only [packVertex, UInt32.toNat_or]
  rw [masked_toNat _ _ _ 5 0 rfl rfl (by decide), masked_toNat _ _ _ 5 5 rfl rfl (by decide),
    masked_toNat _ _ _ 5 10 rfl rfl (by decide), masked_toNat _ _ _ 1 15 rfl rfl (by decide),
    masked_toNat _ _ _ 1 16 rfl rfl (by decide), masked_toNat _ _ _ 3 17 rfl rfl (by decide),
    masked_toNat _ _ _ 5 20 rfl rfl (by decide), ofInt_toNat hx, ofInt_toNat hy, ofInt_toNat hz]
  simp only [packAt, UInt8.toNat_toUInt32, Nat.or_assoc, Nat.or_zero, Nat.reduceAdd]

/-- **The shader gets back what the mesher packed**, each field's low bits and no bit
of another field. -/
theorem unpack_packVertex {x y z : Nat} (hx : x < 2 ^ 32) (hy : y < 2 ^ 32) (hz : z < 2 ^ 32)
    (u v n texture : UInt8) :
    unpack (packVertex x y z u v n texture) =
      { position := ⟨(x % 32 : Nat), (y % 32 : Nat), (z % 32 : Nat)⟩
        texCoords := (u.toNat % 2, v.toNat % 2)
        normal := normals[n.toNat % 8]?
        blockType := texture.toNat % 32 } := by
  have hword := packVertex_toNat hx hy hz u v n texture
  generalize packVertex x y z u v n texture = packed at hword
  -- each field, with the fields below it as the prefix that is shifted out
  have h0 := field_packAt [] [(5, y), (5, z), (1, u.toNat), (1, v.toNat), (3, n.toNat),
    (5, texture.toNat)] 5 x
  have h1 := field_packAt [(5, x)] [(5, z), (1, u.toNat), (1, v.toNat), (3, n.toNat),
    (5, texture.toNat)] 5 y
  have h2 := field_packAt [(5, x), (5, y)] [(1, u.toNat), (1, v.toNat), (3, n.toNat),
    (5, texture.toNat)] 5 z
  have h3 := field_packAt [(5, x), (5, y), (5, z)] [(1, v.toNat), (3, n.toNat),
    (5, texture.toNat)] 1 u.toNat
  have h4 := field_packAt [(5, x), (5, y), (5, z), (1, u.toNat)] [(3, n.toNat),
    (5, texture.toNat)] 1 v.toNat
  have h5 := field_packAt [(5, x), (5, y), (5, z), (1, u.toNat), (1, v.toNat)]
    [(5, texture.toNat)] 3 n.toNat
  have h6 := field_packAt [(5, x), (5, y), (5, z), (1, u.toNat), (1, v.toNat), (3, n.toNat)]
    [] 5 texture.toNat
  simp only [List.nil_append, List.cons_append, ← hword, width, List.map_cons, List.map_nil,
    List.sum_cons, List.sum_nil, Nat.reduceAdd, Nat.reducePow] at h0 h1 h2 h3 h4 h5 h6
  simp only [unpack, unpackPosition, unpackTexCoords, unpackNormal, unpackBlockType,
    field_toNat packed 0x1F 0 5 0 rfl rfl (by decide), field_toNat packed 0x1F 5 5 5 rfl rfl (by decide),
    field_toNat packed 0x1F 10 5 10 rfl rfl (by decide), field_toNat packed 1 15 1 15 rfl rfl (by decide),
    field_toNat packed 1 16 1 16 rfl rfl (by decide), field_toNat packed 7 17 3 17 rfl rfl (by decide),
    field_toNat packed 31 20 5 20 rfl rfl (by decide), Nat.reducePow, h0, h1, h2, h3, h4, h5, h6]

end MyMinecraft.Shader
