import Scraperack.Steps

/-! What a pool must be for `create_pool` to take it. -/

namespace Scraperack

/-- The pairs of the fixed host ports. -/
def hostPairs (ports : List PortSpec) : List (PortProtocol × Nat) :=
  ports.filterMap (fun port => port.hostPort.map (fun hostPort => (port.protocol, hostPort)))

/-- The ports of a pool can be told apart by their names, by what they are in the guest and, where that is fixed,
by what they are on the host. -/
structure Separable (ports : List PortSpec) : Prop where
  named : ∀ port ∈ ports, blank port.name = false
  names : (ports.map PortSpec.name).Nodup
  guest : ∀ port ∈ ports, port.guestPort ≠ 0
  guests : (ports.map (fun port => (port.protocol, port.guestPort))).Nodup
  host : ∀ port ∈ ports, port.hostPort ≠ some 0
  hosts : (hostPairs ports).Nodup

/-- What `create_pool` asks of the pool itself and of its image. -/
structure Requirements (c : Cluster) (pool : Pool) : Prop where
  unmanaged : pool.managedBy = none ∧ pool.environment = none ∧ pool.preload = []
  image : ∃ image, c.images.get pool.image = some image ∧ image.kind = .microVm ∧
    image.compatible = true
  held : ∀ node ∈ c.nodes.values, pool.image ∈ node.images
  limited : ∀ limit ∈ pool.maxInstances, 0 < limit ∧ pool.warmInstances.toNat ≤ limit
  networked : pool.network = true ∨ pool.ports = []
  ports : Separable pool.ports

/-- The pool is as a client may ask for it, with none of the controller's own fields. -/
structure Valid (c : Cluster) (pool : Pool) : Prop extends Requirements c pool where
  noArtifact : pool.environmentArtifact = none

/-- The keys are different from one another and from those seen before. -/
def New {α : Type} (keys seen : List α) : Prop := keys.Nodup ∧ ∀ key ∈ keys, key ∉ seen

theorem new_nil {α : Type} (seen : List α) : New [] seen := ⟨List.nodup_nil, nofun⟩

theorem new_unseen {α : Type} {keys : List α} : New keys [] ↔ keys.Nodup :=
  ⟨And.left, fun apart => ⟨apart, fun _ _ => List.not_mem_nil⟩⟩

/-- The first key is put into the set before the others are looked up. -/
theorem new_cons {α : Type} {key : α} {keys seen : List α} :
    New (key :: keys) seen ↔ key ∉ seen ∧ New keys (key :: seen) := by
  simp only [New, List.nodup_cons, List.mem_cons, not_or, forall_eq_or_imp]
  constructor
  · rintro ⟨⟨apart, rest⟩, new, others⟩
    exact ⟨new, rest, fun k member => ⟨fun same => apart (same ▸ member), others k member⟩⟩
  · rintro ⟨new, rest, others⟩
    exact ⟨⟨fun member => (others key member).1 rfl, rest⟩, new, fun k member =>
      (others k member).2⟩

theorem hostPairs_cons (port : PortSpec) (rest : List PortSpec) :
    hostPairs (port :: rest) =
      port.hostPort.toList.map (fun hostPort => (port.protocol, hostPort)) ++ hostPairs rest := by
  cases dynamic : port.hostPort <;> simp [hostPairs, dynamic]

/-- A dynamic host port is not checked and leaves the third set as it is. -/
theorem new_hostPairs (port : PortSpec) (rest : List PortSpec) (seen : List (PortProtocol × Nat)) :
    port.hostPort ≠ some 0 ∧ New (hostPairs (port :: rest)) seen ↔
      (∀ hostPort ∈ port.hostPort, hostPort ≠ 0 ∧ (port.protocol, hostPort) ∉ seen) ∧
        New (hostPairs rest)
          (port.hostPort.toList.map (fun hostPort => (port.protocol, hostPort)) ++ seen) := by
  rw [hostPairs_cons]
  cases port.hostPort with
  | none => simp
  | some hostPort => simp [new_cons, and_assoc]

/-- The port loop: each of its three sets sees every port's key once. -/
theorem checkPorts_eq_ok_iff (seen : PortsSeen) (ports : List PortSpec) :
    checkPorts seen ports = .ok () ↔
      ((∀ port ∈ ports, blank port.name = false) ∧ New (ports.map PortSpec.name) seen.names) ∧
      ((∀ port ∈ ports, port.guestPort ≠ 0) ∧
        New (ports.map (fun port => (port.protocol, port.guestPort))) seen.guestPorts) ∧
      (∀ port ∈ ports, port.hostPort ≠ some 0) ∧ New (hostPairs ports) seen.hostPorts := by
  induction ports generalizing seen with
  | nil => simp [checkPorts, hostPairs, new_nil]
  | cons port rest ih =>
    have hosts := new_hostPairs port rest seen.hostPorts
    simp only [checkPorts, bind_eq_ok_iff, require_eq_ok_iff, exists_const, ih, List.map_cons,
      List.forall_mem_cons, new_cons]
    constructor
    · rintro ⟨⟨named, name⟩, ⟨guest, pair⟩, host, ⟨othersNamed, names⟩, ⟨guests, pairs⟩, hosts',
        hostPairs'⟩
      obtain ⟨fixed, fresh⟩ := hosts.mpr ⟨host, hostPairs'⟩
      exact ⟨⟨⟨named, othersNamed⟩, name, names⟩, ⟨⟨guest, guests⟩, pair, pairs⟩,
        ⟨fixed, hosts'⟩, fresh⟩
    · rintro ⟨⟨⟨named, othersNamed⟩, name, names⟩, ⟨⟨guest, guests⟩, pair, pairs⟩,
        ⟨fixed, hosts'⟩, fresh⟩
      obtain ⟨host, hostPairs'⟩ := hosts.mp ⟨fixed, fresh⟩
      exact ⟨⟨named, name⟩, ⟨guest, pair⟩, host, ⟨othersNamed, names⟩, ⟨guests, pairs⟩, hosts',
        hostPairs'⟩

theorem checkPorts_separable (ports : List PortSpec) (u : Unit) :
    checkPorts ⟨[], [], []⟩ ports = .ok u ↔ Separable ports := by
  rw [checkPorts_eq_ok_iff]
  simp only [new_unseen]
  constructor
  · rintro ⟨⟨named, names⟩, ⟨guest, guests⟩, host, hosts⟩
    exact ⟨named, names, guest, guests, host, hosts⟩
  · rintro ⟨named, names, guest, guests, host, hosts⟩
    exact ⟨⟨named, names⟩, ⟨guest, guests⟩, host, hosts⟩

/-- `create_pool` takes a pool exactly when it meets the requirements and its name is free. -/
theorem createPool_ok_iff (c : Cluster) (pool : Pool) (result : Section) :
    createPool pool c = .ok result ↔ (Requirements c pool ∧ c.pools.contains pool.name = false) ∧
      result = ⟨{ c with pools := c.pools.insert pool }, [.saveCluster, .unlock], .pool pool⟩ := by
  have held : c.imageReady pool.image = true ↔
    ∀ node ∈ c.nodes.values, pool.image ∈ node.images := by
    simp [Cluster.imageReady, Keyed.all]
  have limited : (∀ limit ∈ pool.maxInstances, 0 < limit ∧ pool.warmInstances.toNat ≤ limit) ↔
      pool.maxInstances ≠ some 0 ∧ ∀ limit ∈ pool.maxInstances,
        pool.warmInstances.toNat ≤ limit := by
    cases pool.maxInstances with
    | none => simp
    | some limit => simp [Nat.pos_iff_ne_zero]
  simp only [createPool, bind_eq_ok_iff, require_eq_ok_iff, found_eq_ok_iff, exists_const,
    checkPorts_separable, held, pure, Except.pure, Except.ok.injEq]
  constructor
  · rintro ⟨image, known, kind, unmanaged, compatible, held, absent, positive, enough, networked,
      ports, rfl⟩
    exact ⟨⟨⟨unmanaged, ⟨image, known, kind, compatible⟩, held, limited.mpr ⟨positive, enough⟩,
      networked, ports⟩, absent⟩, rfl⟩
  · rintro ⟨⟨⟨unmanaged, ⟨image, known, kind, compatible⟩, held, bounds, networked, ports⟩, absent⟩,
      rfl⟩
    obtain ⟨positive, enough⟩ := limited.mp bounds
    exact ⟨image, known, kind, unmanaged, compatible, held, absent, positive, enough, networked,
      ports, rfl⟩

section
variable [Crates]

/-- An accepted pool is valid, and a rejected one changes nothing. -/
structure PoolsChecked (s : System) (pool : Pool) : Prop where
  accepted : ∀ result, createPool pool s.cluster = .ok result → Valid s.cluster pool
  rejected : ∀ error t, createPool pool s.cluster = .error error →
    s.step (.client (.createPool pool)) = some t →
      t.cluster = s.cluster ∧ t.database = s.database ∧ t.inflight = s.inflight ∧
        t.replies = .refused error :: s.replies

/-- The pools are checked as they should be as long as none that is otherwise acceptable comes with an artifact. -/
theorem pool_validation (s : System) (pool : Pool) :
    PoolsChecked s pool ↔ pool.environmentArtifact = none ∨
      ¬ (Requirements s.cluster pool ∧ s.cluster.pools.contains pool.name = false) := by
  constructor
  · intro checked
    by_contra other
    obtain ⟨artifact, admitted⟩ := not_or.mp other
    have taken := (createPool_ok_iff s.cluster pool _).mpr ⟨not_not.mp admitted, rfl⟩
    exact artifact (checked.accepted _ taken).noArtifact
  · intro condition
    constructor
    · intro result ran
      have admitted := ((createPool_ok_iff s.cluster pool result).mp ran).1
      exact ⟨admitted.1, condition.resolve_right (not_not_intro admitted)⟩
    · intro error t refused stepped
      simp only [System.step] at stepped
      split_ifs at stepped
      obtain rfl := Option.some.inj stepped
      have ran : (Commit.createPool pool).run s.cluster = .error error := refused
      rw [System.perform, ran]
      exact ⟨rfl, rfl, rfl, rfl⟩

end

/-- A pool whose environment artifact is a file outside the directory of the artifacts. -/
def smuggledPool : Pool :=
  { Demo.otherPool with environmentArtifact := some "../../../../etc/shadow" }

/-- `create_pool` does not look at the artifact. -/
theorem artifact_accepted : ¬ ∀ [Crates] (s : System) (pool : Pool), PoolsChecked s pool := by
  intro claim
  let imported : System :=
    { Demo.empty with
      cluster := { Cluster.empty with images := (∅ : Keyed Image.id).insert Demo.plainImage } }
  let _ := Demo.crates
  have ran : createPool smuggledPool imported.cluster = .ok _ := rfl
  exact nomatch ((claim imported smuggledPool).accepted _ ran).noArtifact

end Scraperack
