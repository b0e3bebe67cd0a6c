import ControlPlane.Node.ContainerSpec
import ControlPlane.Proofs.KeyMap
import ControlPlane.Proofs.Placement.FirstFit
import ControlPlane.Proofs.Text.Digits

/-!
# The ports that are reserved and the ports that are bound

Placement reads the ports of a task off the declarations of its containers, all of them. The engine
is told of a map from ports of the container to ports of the host, so that of two declarations of
one container port only the later one reaches it. What is bound has therefore been reserved, but not
the other way round: a declaration that is followed by another one for the same container port
takes its port of the host from all other tasks without using it, and if the later declaration names
no port of the host, the container port is not published at all.

Between containers nothing is lost, since each of them has a map of its own.

## Main definitions

* `Container.Decides`: the declarations that reach the engine
* `Task.specs`, `ContainerSpec.Publishes`: what the engine is told to bind

## Main results

* `ContainerSpec.get?_portBindings`: the last declaration of a container port decides
* `Task.published_reserved`: what is bound, and that it has been reserved
-/

namespace ControlPlane

/-- The declaration is the last one of its container port. -/
def Container.Decides (c : Container) (p : Port) : Prop :=
  ∃ before after, c.ports = before ++ p :: after ∧ ∀ q ∈ after, q.containerPort ≠ p.containerPort

/-- What the engine is told about the containers of a task, each under some name. -/
def Task.specs (t : Task) (name : Nat → String) (volumeRoot : String) : List ContainerSpec :=
  t.desiredState.manifest.containers.zipIdx.map fun c => .ofContainer c.1 (name c.2) volumeRoot

namespace ContainerSpec

/-- The engine is told to bind the port of the host. Zero stands for no port. -/
def Publishes (s : ContainerSpec) (port : UInt16) : Prop :=
  port ≠ 0 ∧ ∃ exposed, s.portBindings.get? exposed = some port

variable {c : Container} {p q : Port} {name volumeRoot : String} {port : UInt16}

/-- With their protocol ports are told apart as before. -/
theorem exposed_inj : exposed p = exposed q ↔ p.containerPort = q.containerPort := by
  have htext : ∀ n : Nat, (toString n).toList = Nat.toDigits 10 n := by
    intro n
    rw [show toString n = String.ofList (Nat.toDigits 10 n) from Nat.repr_eq_ofList_toDigits,
      String.toList_ofList]
  rw [exposed, exposed, String.append_left_inj, ← String.toList_inj, htext, htext, toDigits_inj,
    UInt16.toNat_inj]

/-- **The last declaration of a container port decides** where it is bound. -/
theorem get?_portBindings {key : String} :
    (ofContainer c name volumeRoot).portBindings.get? key = some port ↔
      ∃ p, c.Decides p ∧ exposed p = key ∧ p.hostPort = port := by
  rw [ofContainer, KeyMap.get?_ofList_eq_some_iff]
  constructor
  · rintro ⟨before, after, hports, hafter⟩
    obtain ⟨ports, rest, hsplit, -, hrest⟩ := List.map_eq_append_iff.mp hports
    obtain ⟨p, others, rfl, hp, rfl⟩ := List.map_eq_cons_iff.mp hrest
    obtain ⟨rfl, rfl⟩ := Prod.mk.inj hp
    refine ⟨p, ⟨ports, others, hsplit, fun q hq heq => ?_⟩, rfl, rfl⟩
    exact hafter _ (List.mem_map_of_mem hq) (exposed_inj.mpr heq)
  · rintro ⟨p, ⟨before, after, hports, hafter⟩, rfl, rfl⟩
    refine ⟨before.map _, after.map _, by rw [hports, List.map_append, List.map_cons], ?_⟩
    intro entry hentry
    obtain ⟨q, hq, rfl⟩ := List.mem_map.mp hentry
    exact fun heq => hafter q hq (exposed_inj.mp heq)

theorem publishes_iff : (ofContainer c name volumeRoot).Publishes port ↔
    port ≠ 0 ∧ ∃ p, c.Decides p ∧ p.hostPort = port := by
  refine and_congr_right fun _ => ?_
  simp only [get?_portBindings]
  exact ⟨fun ⟨_, p, hp, _, hport⟩ => ⟨p, hp, hport⟩, fun ⟨p, hp, hport⟩ => ⟨_, p, hp, rfl, hport⟩⟩

end ContainerSpec

theorem Container.Decides.mem {c : Container} {p : Port} (h : c.Decides p) : p ∈ c.ports := by
  obtain ⟨before, after, hports, -⟩ := h
  rw [hports]
  exact List.mem_append_right _ (List.mem_cons_self ..)

/-- Where no container port is declared twice, every declaration decides. -/
theorem Container.decides_of_nodup {c : Container} {p : Port}
    (h : (c.ports.map Port.containerPort).Nodup) (hp : p ∈ c.ports) : c.Decides p := by
  obtain ⟨before, after, hports⟩ := List.append_of_mem hp
  refine ⟨before, after, hports, fun q hq heq => ?_⟩
  rw [hports, List.map_append, List.map_cons] at h
  exact (List.nodup_cons.mp (List.nodup_append.mp h).2.1).1 (heq ▸ List.mem_map_of_mem hq)

namespace Task

theorem mem_specs_iff {t : Task} {name : Nat → String} {volumeRoot : String} {s : ContainerSpec} :
    s ∈ t.specs name volumeRoot ↔ ∃ i c, t.desiredState.manifest.containers[i]? = some c ∧
      s = .ofContainer c (name i) volumeRoot := by
  rw [specs, List.mem_map]
  constructor
  · rintro ⟨⟨c, i⟩, hmem, rfl⟩
    exact ⟨i, c, List.mem_zipIdx_iff_getElem?.mp hmem, rfl⟩
  · rintro ⟨i, c, hc, rfl⟩
    exact ⟨(c, i), List.mem_zipIdx_iff_getElem?.mpr hc, rfl⟩

/-- **What is bound has been reserved.** The engine is told to bind the ports of the host that
declarations ask for which are the last ones of their container ports, and no others. These are all
that are reserved as far as no container declares a port of its own twice. -/
theorem published_reserved (t : Task) (name : Nat → String) (volumeRoot : String) :
    (∀ port, (∃ s ∈ t.specs name volumeRoot, s.Publishes port) ↔ port ≠ 0 ∧
      ∃ c ∈ t.desiredState.manifest.containers, ∃ p, c.Decides p ∧ p.hostPort = port) ∧
    (∀ port, (∃ s ∈ t.specs name volumeRoot, s.Publishes port) → port ∈ t.hostPorts) ∧
    ((∀ c ∈ t.desiredState.manifest.containers, (c.ports.map Port.containerPort).Nodup) →
      ∀ port, (∃ s ∈ t.specs name volumeRoot, s.Publishes port) ↔ port ∈ t.hostPorts) := by
  have hbound : ∀ port, (∃ s ∈ t.specs name volumeRoot, s.Publishes port) ↔ port ≠ 0 ∧
      ∃ c ∈ t.desiredState.manifest.containers, ∃ p, c.Decides p ∧ p.hostPort = port := by
    intro port
    constructor
    · rintro ⟨s, hs, hpublishes⟩
      obtain ⟨i, c, hc, rfl⟩ := mem_specs_iff.mp hs
      obtain ⟨hport, hp⟩ := ContainerSpec.publishes_iff.mp hpublishes
      exact ⟨hport, c, List.mem_of_getElem? hc, hp⟩
    · rintro ⟨hport, c, hc, hp⟩
      obtain ⟨i, hi⟩ := List.mem_iff_getElem?.mp hc
      exact ⟨_, mem_specs_iff.mpr ⟨i, c, hi, rfl⟩, ContainerSpec.publishes_iff.mpr ⟨hport, hp⟩⟩
  have hreserved : ∀ port, (∃ s ∈ t.specs name volumeRoot, s.Publishes port) →
      port ∈ t.hostPorts := by
    intro port hpublished
    obtain ⟨hport, c, hc, p, hp, hhost⟩ := (hbound port).mp hpublished
    exact mem_hostPorts_iff.mpr ⟨hport, c, hc, p, hp.mem, hhost⟩
  refine ⟨hbound, hreserved, fun hnodup port => ⟨hreserved port, fun hmem => ?_⟩⟩
  obtain ⟨hport, c, hc, p, hp, hhost⟩ := mem_hostPorts_iff.mp hmem
  exact (hbound port).mpr ⟨hport, c, hc, p, c.decides_of_nodup (hnodup c hc) hp, hhost⟩

/-- Two containers that both serve at their port 80, one of them at another port as well. -/
def twoServers : Task :=
  { desiredState := { manifest := { containers :=
    [{ name := "web", ports := [⟨80, 8080⟩, ⟨443, 0⟩] },
      { name := "api", ports := [⟨80, 9090⟩, ⟨443, 9443⟩] }] } } }

theorem published_reserved_twoServers :
    (∀ c ∈ twoServers.desiredState.manifest.containers,
      (c.ports.map Port.containerPort).Nodup) ∧
    ∀ port, (∃ s ∈ twoServers.specs toString "/exports", s.Publishes port) ↔
      port = 8080 ∨ port = 9090 ∨ port = 9443 := by
  have hnodup : ∀ c ∈ twoServers.desiredState.manifest.containers,
      (c.ports.map Port.containerPort).Nodup := by decide
  refine ⟨hnodup, fun port => ?_⟩
  rw [(published_reserved twoServers toString "/exports").2.2 hnodup,
    show twoServers.hostPorts = [8080, 9090, 9443] by decide]
  simp

/-- A container that declares its port 80 first with a port of the host and then without one. -/
def redeclared : Task :=
  { desiredState := { manifest := { containers :=
    [{ name := "web", image := "nginx", ports := [⟨80, 8080⟩, ⟨80, 0⟩] }] } } }

/-- **Not everything that is reserved is bound.** Two declarations of one container port are enough.
-/
theorem reserved_unpublished :
    ¬ ∀ (t : Task) (name : Nat → String) (volumeRoot : String) (port : UInt16),
      (∃ s ∈ t.specs name volumeRoot, s.Publishes port) ↔ port ∈ t.hostPorts := by
  intro h
  obtain ⟨s, hs, -, key, hkey⟩ := (h redeclared (fun _ => "web") "/exports" 8080).mpr (by decide)
  obtain rfl := List.mem_singleton.mp hs
  have hentry := KeyMap.get?_eq_some_iff.mp hkey
  rw [show (ContainerSpec.portBindings _).entries = [("80/tcp", 0)] by decide] at hentry
  simp at hentry

end Task

end ControlPlane
