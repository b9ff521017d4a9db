import TinFaces.Mesh.Build
import TinFaces.Mesh.Register
import TinFaces.Proofs.AddedBorders
import TinFaces.Proofs.Adjacency
import TinFaces.Proofs.BorderTests
import TinFaces.Proofs.Courses
import TinFaces.Proofs.DepthFirst
import TinFaces.Proofs.EdgeLayout
import TinFaces.Proofs.Exterior
import TinFaces.Proofs.FirstOffence
import TinFaces.Proofs.Flags
import TinFaces.Proofs.FullScan
import TinFaces.Proofs.HullBalance
import TinFaces.Proofs.IslandAndHole
import TinFaces.Proofs.Lawless
import TinFaces.Proofs.LiveEdges
import TinFaces.Proofs.MarkedIndices
import TinFaces.Proofs.Offences
import TinFaces.Proofs.Orbits
import TinFaces.Proofs.Progress
import TinFaces.Proofs.Recycling
import TinFaces.Proofs.RegionReach
import TinFaces.Proofs.RegionTour
import TinFaces.Proofs.Regions
import TinFaces.Proofs.Registrable
import TinFaces.Proofs.RegistrationOrder
import TinFaces.Proofs.Registry
import TinFaces.Proofs.Relabelling
import TinFaces.Proofs.ReservedPairs
import TinFaces.Proofs.Rings
import TinFaces.Proofs.ScanOrbits
import TinFaces.Proofs.ShiftedEdges
import TinFaces.Proofs.Sinks
import TinFaces.Proofs.Slack
import TinFaces.Proofs.TwoCaseScan
import TinFaces.Proofs.VertexFans
import TinFaces.Table
import TinFaces.Walk.Region
import TinFaces.Walk.Scan
