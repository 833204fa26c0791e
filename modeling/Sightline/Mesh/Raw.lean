import Sightline.Mesh.Model

/-!
# Raw meshes

Raw groups and models have geometry but no hierarchies yet.
-/
namespace Sightline

structure RawGroup where
  flags : UInt32
  id : UInt32
  bounds : Box
  vertices : List Vec
  triangles : List Triangle
  liquid : Option Liquid := none
deriving DecidableEq, Repr

structure RawModel where
  root : UInt32
  groups : List RawGroup
deriving DecidableEq, Repr

def RawGroup.toGroup (g : RawGroup) : Except Failure Group := do
  let start : Group := { bounds := g.bounds, flags := g.flags, id := g.id, liquid := g.liquid }
  start.withMesh g.vertices g.triangles

namespace RawModel

def toModel (m : RawModel) : Except Failure Model := do
  let start : Model := { root := m.root }
  start.withGroups (← m.groups.mapM RawGroup.toGroup)

def vertices (m : RawModel) : List Vec := m.groups.flatMap RawGroup.vertices

end RawModel

end Sightline
