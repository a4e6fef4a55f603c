import SectorFS.Volume.Status
import SectorFS.Proofs.Geometry
import SectorFS.Proofs.FreeMap
import SectorFS.Proofs.FreeMap.Words
import SectorFS.Proofs.Requests
import SectorFS.Proofs.Deliveries
import SectorFS.Proofs.Space
import SectorFS.Proofs.FreeMap.Sets
import SectorFS.Proofs.Courses
import SectorFS.Proofs.Index
import SectorFS.Proofs.Index.Lookup
import SectorFS.Proofs.Index.Release
import SectorFS.Proofs.Index.Allocation
import SectorFS.Proofs.Index.Charge
import SectorFS.Proofs.Index.Allocated
import SectorFS.Proofs.Files
import SectorFS.Proofs.Transfer
import SectorFS.Proofs.Tables
import SectorFS.Proofs.Places
import SectorFS.Proofs.Sound
import SectorFS.Proofs.Resolution
import SectorFS.Proofs.Linking
import SectorFS.Proofs.Creation
import SectorFS.Proofs.Creation.Stages
import SectorFS.Proofs.Removal.Release
import SectorFS.Proofs.Removal
import SectorFS.Proofs.Reports
import SectorFS.Proofs.Removal.Effect
import SectorFS.Proofs.Removal.Cuts
import SectorFS.Proofs.Format
import SectorFS.Proofs.Format.Extent
import SectorFS.Proofs.Composed
import SectorFS.Proofs.Quiet
import SectorFS.Proofs.Transfer.Allocated
import SectorFS.Proofs.Transfer.Interrupted
import SectorFS.Proofs.Sessions
import SectorFS.Proofs.Sessions.Changes
import SectorFS.Proofs.Sessions.OpenFiles
import SectorFS.Proofs.Sessions.Mounted
import SectorFS.Proofs.Sessions.Effects
import SectorFS.Proofs.Sessions.Steps
import SectorFS.Proofs.Sessions.Formatted
import SectorFS.Proofs.Sessions.Ownership
import SectorFS.Proofs.Sessions.Isolation
import SectorFS.Proofs.Creation.Names
import SectorFS.Proofs.Sessions.Creations
import SectorFS.Proofs.Creation.Cuts
import SectorFS.Proofs.Sessions.Cuts
import SectorFS.Proofs.Naming.Texts
import SectorFS.Proofs.Naming.Legible
import SectorFS.Proofs.Sessions.Plain
import SectorFS.Proofs.Listing
import SectorFS.Proofs.Listing.Paths
import SectorFS.Proofs.Sessions.Listings
import SectorFS.Proofs.Removal.Names
import SectorFS.Proofs.Sessions.Removals
import SectorFS.Proofs.Resolution.Parents
import SectorFS.Proofs.Sessions.Names
import SectorFS.Proofs.Sessions.Refusals
import SectorFS.Proofs.Sessions.Interruptions
import SectorFS.Proofs.Sessions.Openings
import SectorFS.Proofs.Sessions.Regular
import SectorFS.Proofs.Sessions.Cursors
import SectorFS.Proofs.Sessions.Kept
import SectorFS.Proofs.Sessions.Faults
import SectorFS.Proofs.Sessions.Statuses
import SectorFS.Proofs.Sessions.Resemblance
import SectorFS.Proofs.Sessions.Joint
import SectorFS.Proofs.Sessions.Returns
import SectorFS.Proofs.Sessions.Remounts
import SectorFS.Proofs.Sessions.Forgetting
import SectorFS.Proofs.Transfer.Starts
import SectorFS.Proofs.Naming.Grammar
import SectorFS.Proofs.Directory.Edits
import SectorFS.Proofs.FreeMap.Saved
import SectorFS.Proofs.StoredForms
import SectorFS.Proofs.Geometry.Words
import SectorFS.Proofs.Accesses
