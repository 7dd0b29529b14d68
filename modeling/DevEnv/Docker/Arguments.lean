import DevEnv.Container

/-! The arguments with which the docker command creates a container.
Options come in a fixed order and the image comes last. -/
namespace DevEnv.Docker

/-- An option for each value. -/
def options (flag : String) (values : List String) : List String := values.flatMap ([flag, ·])

/-- The value of an option, unless it is empty. -/
def nonempty (s : String) : List String := if s = "" then [] else [s]

/-- A binding as host address, host port and container port; an empty address is left out. -/
def publish (b : Container.Binding) : String :=
  let hostPort := Text.ofNat b.hostPort.toNat
  let host := if b.hostIp = "" then hostPort else s!"{b.hostIp}:{hostPort}"
  s!"{host}:{Text.ofNat b.containerPort.toNat}/{b.protocol}"

def mount (m : Container.Mount) : String :=
  s!"type=bind,source={m.source},target={m.target}" ++ if m.readOnly then ",readonly" else ""

def createArguments (s : Container.Spec) : List String :=
  ["create", "--name", s.name] ++
    options "--workdir" (nonempty s.workdir) ++
    options "--restart" (nonempty s.restartPolicy) ++
    options "--label" (s.labels.entries.map fun e => s!"{e.1}={e.2}") ++
    options "--expose" (s.exposed.map fun p => s!"{Text.ofNat p.toNat}/tcp") ++
    options "--publish" (s.bindings.map publish) ++
    options "--mount" (s.mounts.map mount) ++
    options "--shm-size" (s.sharedMemory.toList.map fun n => s!"{Text.ofNat n.toNat}b") ++
    options "--gpus" (s.devices.map (·.render)) ++
    options "--cpus" s.cpus.toList ++
    options "--cpuset-cpus" s.cpuSet.toList ++
    options "--memory" s.memory.toList ++
    [s.image]

end DevEnv.Docker
