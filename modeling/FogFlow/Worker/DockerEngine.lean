import FogFlow.Discovery.Geolocation
import FogFlow.Library.Named
import FogFlow.Ngsi.MetadataJson
import FogFlow.Worker.Executor

namespace FogFlow.Worker.DockerEngine

open Ngsi Datamodel Fields Loop Named
open Discovery (strSplit)

inductive ParameterValue where
  | string (s : String)
  | map (m : GoMap String)
  | null

structure Parameter where
  name : String
  value : ParameterValue

-- what the docker engine reads of a task beside what the executor reads of it
structure DockerTask extends ScheduledTaskInstance where
  dockerImage : String
  functionCode : String
  parameters : List Parameter

structure DockerVolumeMount where
  name : String
  path : String
  readOnly : Bool

structure Config where
  internalIP : String
  containerAutoRemove : Bool
  dockerVolumes : List DockerVolumeMount

structure HostMount where
  type : String
  source : String
  target : String
  readOnly : Bool
deriving DecidableEq, Repr

structure PortBinding where
  hostIP : String
  hostPort : String
deriving DecidableEq, Repr

-- docker.Config and docker.HostConfig
structure ContainerOptions where
  image : String
  env : List String
  exposedPorts : List String
  mounts : List HostMount
  autoRemove : Bool
  portBindings : GoMap (List PortBinding)

def ParameterValue.asString : ParameterValue → Option String
  | .string s => some s
  | _ => none

def parseDockerVolumeSpec (spec : String) : Option HostMount :=
  match strSplit spec ":" with
  | source :: target :: rest =>
      if source = "" ∨ target = "" then none
      else some ⟨"volume", source, target,
        rest.head?.any (fun mode => foldName mode == foldName "ro")⟩
  | _ => none

def parseDockerVolumeParameter (parameter : Parameter) : Option HostMount :=
  match parameter.value with
  | .string spec => parseDockerVolumeSpec spec
  | .map m =>
      let name := (m.get "name").getD ""
      let path := (m.get "path").getD ""
      let mode := (m.get "read_only").getD ""
      if name = "" ∨ path = "" then none
      else some ⟨"volume", name, path,
        foldName mode == foldName "true" || foldName mode == foldName "ro"⟩
  | .null => none

def putMount (mountsByTarget : GoMap HostMount) (mount : HostMount) : GoMap HostMount :=
  mountsByTarget.set mount.target mount

def putDefault (mountsByTarget : GoMap HostMount) (vol : DockerVolumeMount) : GoMap HostMount :=
  if vol.name = "" ∨ vol.path = "" then mountsByTarget
  else putMount mountsByTarget ⟨"volume", vol.name, vol.path, vol.readOnly⟩

-- what the loop over the parameters has collected
structure Collected where
  servicePorts : List String
  mountsByTarget : GoMap HostMount

def takeServicePort (servicePorts : List String) (parameter : Parameter) :
    Except Fault (List String) :=
  if parameter.name = "service_port" then do
    let value ← deref parameter.value.asString
    .ok (strSplit value ";")
  else .ok servicePorts

-- the devices that a number of gpus asks for are left out, but not the pointer to the number
def takeGpus (parameter : Parameter) : Except Fault Unit :=
  if parameter.name = "gpus" then do
    let _ ← deref parameter.value.asString
    .ok ()
  else .ok ()

def takeVolume (mountsByTarget : GoMap HostMount) (parameter : Parameter) : GoMap HostMount :=
  if parameter.name = "docker_volume" ∨ parameter.name = "docker-volume" then
    match parseDockerVolumeParameter parameter with
    | some mount => putMount mountsByTarget mount
    | none => mountsByTarget
  else mountsByTarget

def takeParameter (collected : Collected) (parameter : Parameter) : Except Fault Collected := do
  let servicePorts ← takeServicePort collected.servicePorts parameter
  takeGpus parameter
  .ok ⟨servicePorts, takeVolume collected.mountsByTarget parameter⟩

def functionMount (task : DockerTask) : HostMount :=
  ⟨"bind", "/tmp/" ++ task.id, "/app/function.js", true⟩

-- what the attempts of one call have in common
structure Prepared where
  servicePorts : List String
  mounts : List HostMount

def prepare (cfg : Config) (rank : String → Nat) (task : DockerTask) : Except Fault Prepared := do
  let collected ← task.parameters.foldlM takeParameter
    ⟨[], cfg.dockerVolumes.foldl putDefault ∅⟩
  let mountsByTarget :=
    if task.functionCode ≠ "" then putMount collected.mountsByTarget (functionMount task)
    else collected.mountsByTarget
  .ok ⟨collected.servicePorts, (mountsByTarget.range rank).map (fun e => e.2)⟩

def contains (s substr : String) : Bool :=
  s.toList.tails.any (fun rest => substr.toList.isPrefixOf rest)

def isPortBindError (err : String) : Bool :=
  let msg := toLower err
  contains msg "address already in use" || contains msg "failed to bind port" ||
    contains msg "external connectivity"

-- a map is encoded with its keys in order
def command (fields : List (String × Json)) : Json := .object (toFields (ofFields fields))

def ParameterValue.toJson : ParameterValue → Json
  | .string s => .string s
  | .map m => .object (toFields (m.map Json.string))
  | .null => .null

def generateTaskCommandsList (task : DockerTask) (brokerURL : String) : List Json :=
  [command [("command", .string "CONNECT_BROKER"), ("brokerURL", .string brokerURL)],
    command [("command", .string "SET_CORRELATORID"), ("correlatorID", .string task.id)]] ++
  task.inputs.map (fun inputStream => command [("command", .string "SET_INPUTS"),
    ("type", .string inputStream.type), ("id", .string inputStream.id),
    ("attributes", .array (inputStream.attributeList.map Json.string))]) ++
  task.outputs.map (fun outStream => command [("command", .string "SET_OUTPUTS"),
    ("type", .string outStream.type), ("id", .string outStream.streamID)]) ++
  task.parameters.map (fun parameter => command [("command", .string "SET_PARAMETER"),
    ("name", .string parameter.name), ("value", parameter.value.toJson)])

def refURL (cfg : Config) (freePort : String) : String :=
  "http://" ++ cfg.internalIP ++ ":" ++ freePort

-- the command that is encoded anew in each attempt, with the port of the attempt
def setReferenceCmd (cfg : Config) (freePort : String) : Json :=
  command [("command", .string "SET_REFERENCE"), ("url", .string (refURL cfg freePort))]

def adminCfg (cfg : Config) (brokerURL : String) (task : DockerTask) (freePort : String) : Json :=
  .array (generateTaskCommandsList task brokerURL ++ [setReferenceCmd cfg freePort])

def bindPort (portBindings : GoMap (List PortBinding)) (port : String) :
    GoMap (List PortBinding) :=
  portBindings.set (port ++ "/tcp") [⟨"0.0.0.0", port⟩]

def containerOptions (text : Json → String) (cfg : Config) (brokerURL : String)
    (task : DockerTask) (prepared : Prepared) (freePort : String) : ContainerOptions where
  image := task.dockerImage
  env := ["myport=" ++ freePort, "adminCfg=" ++ text (adminCfg cfg brokerURL task freePort)]
  exposedPorts := [freePort ++ "/tcp"]
  mounts := prepared.mounts
  autoRemove := cfg.containerAutoRemove
  portBindings := prepared.servicePorts.foldl bindPort (bindPort ∅ freePort)

-- the mounts that are asked for, each of them overriding those before it on the same path
def defaultMounts (cfg : Config) : List HostMount :=
  (cfg.dockerVolumes.filter (fun vol => vol.name ≠ "" ∧ vol.path ≠ "")).map
    (fun vol => ⟨"volume", vol.name, vol.path, vol.readOnly⟩)

def parameterMounts (parameters : List Parameter) : List HostMount :=
  (parameters.filter (fun parameter =>
    parameter.name = "docker_volume" ∨ parameter.name = "docker-volume")).filterMap
      parseDockerVolumeParameter

def wantedMounts (cfg : Config) (task : DockerTask) : List HostMount :=
  defaultMounts cfg ++ parameterMounts task.parameters ++
    if task.functionCode ≠ "" then [functionMount task] else []

def Readable (parameters : List Parameter) : Prop :=
  ∀ parameter ∈ parameters, parameter.name = "service_port" ∨ parameter.name = "gpus" →
    parameter.value.asString.isSome

section Mounts

variable {cfg : Config} {task : DockerTask} {rank : String → Nat} {collected : Collected}
  {parameters : List Parameter}

theorem putDefaults_eq (vols : List DockerVolumeMount) (m : GoMap HostMount) :
    vols.foldl putDefault m =
      ((vols.filter (fun vol => vol.name ≠ "" ∧ vol.path ≠ "")).map
        (fun vol => (⟨"volume", vol.name, vol.path, vol.readOnly⟩ : HostMount))).foldl
          putMount m := by
  induction vols generalizing m with
  | nil => rfl
  | cons vol vols ih =>
    rw [List.foldl_cons, ih, putDefault, List.filter_cons]
    by_cases hskip : vol.name = "" ∨ vol.path = ""
    · have hnot : ¬ (vol.name ≠ "" ∧ vol.path ≠ "") := by tauto
      rw [if_pos hskip, if_neg (by simpa using hnot)]
    · have htaken : vol.name ≠ "" ∧ vol.path ≠ "" := by tauto
      rw [if_neg hskip, if_pos (by simpa using htaken)]
      rfl

theorem takeVolumes_eq (parameters : List Parameter) (m : GoMap HostMount) :
    parameters.foldl takeVolume m = (parameterMounts parameters).foldl putMount m := by
  induction parameters generalizing m with
  | nil => rfl
  | cons parameter parameters ih =>
    rw [List.foldl_cons, ih]
    unfold parameterMounts takeVolume
    rw [List.filter_cons]
    by_cases hname : parameter.name = "docker_volume" ∨ parameter.name = "docker-volume"
    · rw [if_pos hname, if_pos (by simpa using hname), List.filterMap_cons]
      cases parseDockerVolumeParameter parameter <;> rfl
    · rw [if_neg hname, if_neg (by simpa using hname)]

theorem ends_deref {α : Type} {a : Option α} : Ends (deref a) ↔ a.isSome := by
  cases a with
  | none => simp [Ends, deref]
  | some a => simp [Ends, deref]

theorem takeParameter_ok {parameter : Parameter} {next : Collected}
    (h : takeParameter collected parameter = .ok next) :
    next.mountsByTarget = takeVolume collected.mountsByTarget parameter := by
  obtain ⟨servicePorts, -, h⟩ := bind_eq_ok.mp h
  obtain ⟨-, -, h⟩ := bind_eq_ok.mp h
  rw [← Except.ok.inj h]

theorem ends_takeParameter {parameter : Parameter} :
    Ends (takeParameter collected parameter) ↔
      (parameter.name = "service_port" ∨ parameter.name = "gpus" →
        parameter.value.asString.isSome) := by
  have hport : Ends (takeServicePort collected.servicePorts parameter) ↔
      (parameter.name = "service_port" → parameter.value.asString.isSome) := by
    unfold takeServicePort
    split_ifs with hname
    · rw [ends_bind_ok, ends_deref]
      simp [hname]
    · exact ⟨fun _ h => absurd h hname, fun _ => ends_ok _⟩
  have hgpus : Ends (takeGpus parameter) ↔
      (parameter.name = "gpus" → parameter.value.asString.isSome) := by
    unfold takeGpus
    split_ifs with hname
    · rw [ends_bind_ok, ends_deref]
      simp [hname]
    · exact ⟨fun _ h => absurd h hname, fun _ => ends_ok _⟩
  rw [or_imp, ← hport, ← hgpus]
  constructor
  · intro h
    obtain ⟨servicePorts, hservicePorts, h⟩ := ends_bind.mp h
    obtain ⟨read, hread, -⟩ := ends_bind.mp h
    exact ⟨⟨servicePorts, hservicePorts⟩, ⟨read, hread⟩⟩
  · rintro ⟨⟨servicePorts, hservicePorts⟩, ⟨read, hread⟩⟩
    exact ends_bind.mpr ⟨servicePorts, hservicePorts, ends_bind.mpr ⟨read, hread, ends_ok _⟩⟩

theorem ends_takeParameters :
    Ends (parameters.foldlM takeParameter collected) ↔ Readable parameters :=
  foldlM_ends_iff (fun collected parameter => (ends_takeParameter :
    Ends (takeParameter collected parameter) ↔
      (parameter.name = "service_port" ∨ parameter.name = "gpus" →
        parameter.value.asString.isSome)))

theorem mounts_takeParameters {next : Collected}
    (h : parameters.foldlM takeParameter collected = .ok next) :
    next.mountsByTarget = (parameterMounts parameters).foldl putMount collected.mountsByTarget := by
  have hloop : next.mountsByTarget = parameters.foldl takeVolume collected.mountsByTarget := by
    refine foldlM_invariant (I := fun done next =>
      next.mountsByTarget = done.foldl takeVolume collected.mountsByTarget) h rfl ?_
    intro done parameter rest acc next _ hacc hstep
    rw [takeParameter_ok hstep, hacc, List.foldl_append]
    rfl
  rw [hloop, takeVolumes_eq]

theorem get_putMounts (mounts : List HostMount) (target : String) :
    (mounts.foldl putMount ∅).get target = (named HostMount.target target mounts).getLast? := by
  rw [show mounts.foldl putMount ∅ = mounts.foldl (fun m mount => m.set mount.target mount) ∅ from
    rfl, get_foldl_set, GoMap.get_empty, Option.or_none]

theorem prepare_eq {prepared : Prepared} (h : prepare cfg rank task = .ok prepared) :
    prepared.mounts =
      (((wantedMounts cfg task).foldl putMount ∅).range rank).map (fun e => e.2) := by
  obtain ⟨collected, hcollected, h⟩ := bind_eq_ok.mp h
  have hmounts := mounts_takeParameters hcollected
  rw [← Except.ok.inj h]
  dsimp only at hmounts ⊢
  rw [hmounts, putDefaults_eq, ← List.foldl_append]
  unfold wantedMounts defaultMounts
  split_ifs <;> simp [List.foldl_append]

theorem ends_prepare : Ends (prepare cfg rank task) ↔ Readable task.parameters := by
  unfold prepare
  rw [ends_bind_ok]
  exact ends_takeParameters

-- whatever the order of the map, each path has the mount that was asked for last
theorem one_mount_for_each_path (cfg : Config) (rank : String → Nat) (task : DockerTask) :
    (Ends (prepare cfg rank task) ↔ Readable task.parameters) ∧
      ∀ prepared, prepare cfg rank task = .ok prepared →
        (prepared.mounts.map HostMount.target).Nodup ∧
          ∀ mount, mount ∈ prepared.mounts ↔
            (named HostMount.target mount.target (wantedMounts cfg task)).getLast? =
              some mount := by
  refine ⟨ends_prepare, fun prepared h => ?_⟩
  rw [prepare_eq h]
  have htarget : ∀ k mount, ((wantedMounts cfg task).foldl putMount ∅).get k = some mount →
      mount.target = k := by
    intro k mount hk
    rw [get_putMounts] at hk
    exact (mem_named.mp (List.mem_of_getLast? hk)).2
  constructor
  · have hkeys : ((((wantedMounts cfg task).foldl putMount ∅).range rank).map
        (fun e => e.2)).map HostMount.target =
          (((wantedMounts cfg task).foldl putMount ∅).range rank).map (fun e => e.1) := by
      rw [List.map_map]
      exact List.map_congr_left (fun e he => htarget e.1 e.2 (GoMap.mem_range.mp he))
    rw [hkeys]
    exact GoMap.range_keys_nodup rank _
  · intro mount
    rw [← get_putMounts]
    constructor
    · intro hmem
      obtain ⟨e, he, rfl⟩ := List.mem_map.mp hmem
      have hget := GoMap.mem_range.mp he
      rw [htarget e.1 e.2 hget]
      exact hget
    · exact fun hget => List.mem_map.mpr ⟨⟨mount.target, mount⟩, GoMap.mem_range.mpr hget, rfl⟩

-- the ports that the container publishes are its own and those of the task, each under its number
theorem get_portBindings (text : Json → String) (brokerURL : String) (prepared : Prepared)
    (freePort : String) {port : String} (h : port ∈ freePort :: prepared.servicePorts) :
    (containerOptions text cfg brokerURL task prepared freePort).portBindings.get
      (port ++ "/tcp") = some [⟨"0.0.0.0", port⟩] := by
  have hbind : ∀ (ports : List String) (m : GoMap (List PortBinding)),
      port ∈ ports ∨ m.get (port ++ "/tcp") = some [⟨"0.0.0.0", port⟩] →
        (ports.foldl bindPort m).get (port ++ "/tcp") = some [⟨"0.0.0.0", port⟩] := by
    intro ports
    induction ports with
    | nil => exact fun m hm => hm.elim (fun h => absurd h List.not_mem_nil) id
    | cons first ports ih =>
      intro m hm
      refine ih (bindPort m first) ?_
      rw [bindPort, GoMap.get_set]
      by_cases hfirst : port ++ "/tcp" = first ++ "/tcp"
      · have hport : port = first := by simpa using hfirst
        rw [if_pos hfirst, hport]
        exact .inr rfl
      · rw [if_neg hfirst]
        refine hm.imp_left (fun hmem => ?_)
        exact (List.mem_cons.mp hmem).resolve_left (fun heq => hfirst (by rw [heq]))
  exact hbind (freePort :: prepared.servicePorts) ∅ (.inl h)

end Mounts

end FogFlow.Worker.DockerEngine
