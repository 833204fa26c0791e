import Sightline.Single.Trigonometry
import Sightline.Single.Decimal
import Sightline.Single.Reading
import Sightline.Geometry.Ray
import Sightline.Geometry.Rotation
import Sightline.Text.Split
import Sightline.Bytes.Reader
import Sightline.Bytes.Writer
import Sightline.Hierarchy.File
import Sightline.Hierarchy.PointWalk
import Sightline.Hierarchy.Build
import Sightline.Mesh.Model
import Sightline.Mesh.Raw
import Sightline.Placement.Basic
import Sightline.Placement.Query
import Sightline.Placement.Scene
import Sightline.Settings.Options
import Sightline.World.Directory
import Sightline.World.Library
import Sightline.World.MapQuery
import Sightline.World.Assembly
import Sightline.World.Atlas
import Sightline.World.Exemptions
import Sightline.World.Service
import Sightline.Proofs.Hierarchy.Representation
import Sightline.Proofs.Hierarchy.PointWalking
import Sightline.Proofs.Hierarchy.Termination
import Sightline.Proofs.Geometry.Ray
import Sightline.Proofs.Hierarchy.RayRoutes
import Sightline.Proofs.Hierarchy.RayPlaces
import Sightline.Proofs.Hierarchy.RayWalking
import Sightline.Proofs.Hierarchy.StoppingEarly
import Sightline.Proofs.World.Sight
import Sightline.Proofs.Geometry.Distance
import Sightline.Proofs.World.Holding
import Sightline.Proofs.World.Tiles
import Sightline.Proofs.World.TileRuns
import Sightline.Proofs.World.Clearing
import Sightline.Proofs.World.References
import Sightline.Proofs.Bytes.Reading
import Sightline.Proofs.Hierarchy.Stored
import Sightline.Proofs.Text.Utf8
import Sightline.Proofs.Hierarchy.Storing
import Sightline.Proofs.Mesh.Stored
import Sightline.Proofs.Placement.Stored
import Sightline.Proofs.World.Calls
import Sightline.Proofs.World.FileNames
import Sightline.Proofs.World.Slots
import Sightline.Proofs.World.Writing
import Sightline.Proofs.World.Assembling
import Sightline.Proofs.World.Reopening
import Sightline.Proofs.World.Handles
import Sightline.Proofs.World.Loading
import Sightline.Proofs.Bytes.Taking
import Sightline.Proofs.Lookups
import Sightline.Proofs.Hierarchy.Rewriting
import Sightline.Proofs.Hierarchy.Meeting
import Sightline.Proofs.Mesh.RoundTrip
import Sightline.Proofs.Mesh.Lookups
import Sightline.Proofs.World.Later
import Sightline.Proofs.World.Lookups
import Sightline.Proofs.Hierarchy.Oversized
import Sightline.Proofs.Finishing
import Sightline.Proofs.Hierarchy.TurningBack
import Sightline.Proofs.Hierarchy.Ending
import Sightline.Proofs.Placement.Highest
import Sightline.Proofs.World.Areas
import Sightline.Proofs.World.Apart
import Sightline.Proofs.World.Repeating
import Sightline.Proofs.World.Pairing
import Sightline.Proofs.Single.Earliest
import Sightline.Proofs.Hierarchy.Keeping
import Sightline.Proofs.Geometry.Nearness
import Sightline.Proofs.Hierarchy.Starting
import Sightline.Proofs.Hierarchy.Enclosing
import Sightline.Proofs.Hierarchy.OneLeaf
import Sightline.Proofs.Mesh.HitTimes
import Sightline.Proofs.Mesh.Alone
import Sightline.Proofs.Mesh.FloorBelow
import Sightline.Proofs.Mesh.NearestInGroup
import Sightline.Proofs.Mesh.NearestHit
import Sightline.Proofs.Hierarchy.Alongside
import Sightline.Proofs.World.Floors
import Sightline.Proofs.Bytes.CuttingOff
import Sightline.Proofs.Mesh.CutOff
import Sightline.Proofs.Placement.Streams
import Sightline.Proofs.World.Saving
import Sightline.Proofs.World.Reachable
import Sightline.Proofs.World.Conversion
import Sightline.Proofs.World.Again
import Sightline.Proofs.Hierarchy.Counting
import Sightline.Proofs.Hierarchy.Depths
import Sightline.Proofs.World.Global
import Sightline.Proofs.World.Reordering
import Sightline.Proofs.Settings.Commands
import Sightline.Proofs.Text.Words
import Sightline.Proofs.Settings.Restoring
import Sightline.Proofs.Text.Trimming
import Sightline.Proofs.World.Exempting
import Sightline.Proofs.Single.Extremes
import Sightline.Proofs.Geometry.Hull
import Sightline.Proofs.World.Bounding
import Sightline.Proofs.Geometry.Entering
import Sightline.Proofs.World.TileNames
