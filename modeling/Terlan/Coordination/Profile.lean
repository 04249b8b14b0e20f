/-
  Identity of one VM node, as `VmCoordinationProfile::new` admits it. The checks it makes
  are fields of the structure, so an unchecked profile cannot be built.
-/
import Std.Data.ExtTreeSet
import Terlan.Lib.Text

namespace Terlan.Coordination

open Terlan.Lib
open Std (ExtTreeSet)

structure VmCoordinationProfile where
  appId : String
  vmId : String
  nodeId : String
  clusterId : String
  epoch : UInt64
  runtimeVersion : String
  capabilities : ExtTreeSet String
  fields_nonblank : ∀ value ∈ [appId, vmId, nodeId, clusterId, runtimeVersion],
    isBlank value = false
  epoch_nonzero : epoch ≠ 0
  capabilities_nonblank : ∀ value ∈ capabilities.toList, isBlank value = false

namespace VmCoordinationProfile

def new (appId vmId nodeId clusterId : String) (epoch : UInt64) (runtimeVersion : String)
    (capabilities : List String) : Except String VmCoordinationProfile :=
  let capabilities := ExtTreeSet.ofList capabilities
  let fields := [("app_id", appId), ("vm_id", vmId), ("node_id", nodeId),
    ("cluster_id", clusterId), ("runtime_version", runtimeVersion)]
  match hfields : fields.find? fun field => isBlank field.2 with
  | some (field, _) => .error s!"error[vm_coordination_profile]: `{field}` must not be empty"
  | none =>
    if hepoch : epoch = 0 then
      .error "error[vm_coordination_profile]: `epoch` must be non-zero"
    else if hcapabilities : capabilities.toList.any isBlank then
      .error "error[vm_coordination_profile]: capability names must not be empty"
    else
      .ok
        { appId, vmId, nodeId, clusterId, epoch, runtimeVersion, capabilities
          fields_nonblank := by
            have h := List.find?_eq_none.mp hfields
            simpa [fields] using h
          epoch_nonzero := hepoch
          capabilities_nonblank := by simpa using hcapabilities }

def canCoordinateWith (profile peer : VmCoordinationProfile) : Bool :=
  profile.clusterId = peer.clusterId ∧ profile.runtimeVersion = peer.runtimeVersion

/-- Each required capability is advertised. -/
def hasCapabilities (profile : VmCoordinationProfile) (required : List String) : Bool :=
  required.all fun capability => profile.capabilities.contains capability

end VmCoordinationProfile

end Terlan.Coordination
