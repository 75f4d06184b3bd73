import MyMinecraft.Shadowmap.Cover
import MyMinecraft.Shadowmap
import MyMinecraft.Lib.Viewing
import MyMinecraft.GameScene.Heard
import MyMinecraft.Lib.Throttle
import MyMinecraft.Session.Picture
import MyMinecraft.World.Terrain
import MyMinecraft.ChunkVertices.Count
import MyMinecraft.ChunkVertices.Faces
import MyMinecraft.GameScene.Crosshair
import MyMinecraft.ChunkVertices.Triangles
import MyMinecraft.Lib.Convex
import MyMinecraft.Session
import MyMinecraft.Renderer.Serial
import MyMinecraft.GameScene.Axes
import MyMinecraft.Renderer.Rest
import MyMinecraft.Renderer.Atomic
import MyMinecraft.Renderer.Races
import MyMinecraft.Client.Chat
import MyMinecraft.Threadpool.Wakeup
import MyMinecraft.Client.Bounds
import MyMinecraft.World.Frustum
import MyMinecraft.Client.AnyBytes
import MyMinecraft.Entities.Text
import MyMinecraft.Entities.Names
import MyMinecraft.Entities.Relay
import MyMinecraft.Entities.Drawn
import MyMinecraft.World.Address
import MyMinecraft.Renderer.Convergence
import MyMinecraft.GameScene.Face
import MyMinecraft.GameScene.March
import MyMinecraft.GameScene.Clicks
import MyMinecraft.GameScene
import MyMinecraft.Entities.Order
import MyMinecraft.Entities
import MyMinecraft.Client.Stream
import MyMinecraft.Client.Access
import MyMinecraft.Client
import MyMinecraft.Lib.Wire
import MyMinecraft.Renderer.Rebuild
import MyMinecraft.Renderer.Reads
import MyMinecraft.Renderer
import MyMinecraft.ChunkVertices.Watertight
import MyMinecraft.ChunkVertices.Exact
import MyMinecraft.Shader
import MyMinecraft.ChunkVertices
import MyMinecraft.Threadpool
import MyMinecraft.World.Drawable
