import Scraperack.Identity
import Scraperack.Urls
import Scraperack.Validation

/-! The requests for the idle instances of a pool. The node puts the pool's name into the URL as it is, and the
controller reads it back from the path. -/

namespace Scraperack
open Urls

/-- `maintain_vms`: `{controller}/internal/nodes/{node}/pools/{}/idle`. -/
def idleUrl (controller : Origin) (node : Uuid) (name : String) : List Char :=
  controller.text ++ "/internal/nodes/".toList ++ node.hyphenatedChars ++ "/pools/".toList ++
    name.toList ++ "/idle".toList

/-- `serve`: the parameters of the route `/internal/nodes/{id}/pools/{pool}/idle`. Between two slashes
a parameter may be empty. -/
def idleRoute (path : List UInt8) : Option (String × String) :=
  match received path with
  | [internal, nodes, id, pools, pool, idle] =>
    if internal = utf8 "internal".toList ∧ nodes = utf8 "nodes".toList ∧
        pools = utf8 "pools".toList ∧ idle = utf8 "idle".toList then do
      let id ← parameter id
      let pool ← parameter pool
      return (id, pool)
    else none
  | _ => none

/-- A name that a path takes and gives back unchanged. -/
structure Survives (name : String) : Prop where
  noDots : name ≠ "." ∧ name ≠ ".."
  plain : ∀ c ∈ name.toList, slash c = false ∧ ending c = false ∧ dropped c = false
  noEscape : NoEscape name.toList

/-- The segments before the name. -/
def beforeName (node : Uuid) : List (List Char) :=
  ["internal".toList, "nodes".toList, node.hyphenatedChars, "pools".toList]

theorem digitChar_mem {value : Nat} (small : value < 16) :
    value.digitChar ∈ "0123456789abcdef".toList := by
  have all : ∀ value : Fin 16, value.val.digitChar ∈ "0123456789abcdef".toList := by decide
  exact all ⟨value, small⟩

theorem mem_hyphenatedChars {id : Uuid} {c : Char} (member : c ∈ id.hyphenatedChars) :
    c ∈ "0123456789abcdef-".toList := by
  have digits {d : Char} (inside : d ∈ id.digits) : d ∈ "0123456789abcdef-".toList := by
    obtain ⟨i, -, rfl⟩ := List.mem_map.mp inside
    have hex := digitChar_mem (Nat.mod_lt (id.toNat / 16 ^ (31 - i)) (by decide : 0 < 16))
    have more : "0123456789abcdef-".toList = "0123456789abcdef".toList ++ ['-'] := rfl
    rw [more]
    exact List.mem_append_left _ hex
  have part {l : List Char} (sub : l.Sublist id.digits) (inside : c ∈ l) :=
    digits (sub.subset inside)
  have dash : '-' ∈ "0123456789abcdef-".toList := by decide
  simp only [Uuid.hyphenatedChars, List.mem_append, List.mem_cons] at member
  rcases member with h | rfl | h | rfl | h | rfl | h | rfl | h
  · exact part (List.take_sublist _ _) h
  · exact dash
  · exact part ((List.take_sublist _ _).trans (List.drop_sublist _ _)) h
  · exact dash
  · exact part ((List.take_sublist _ _).trans (List.drop_sublist _ _)) h
  · exact dash
  · exact part ((List.take_sublist _ _).trans (List.drop_sublist _ _)) h
  · exact dash
  · exact part (List.drop_sublist _ _) h

/-- The characters of an identifier mean nothing in a URL. -/
theorem hyphenated_plain (id : Uuid) : ∀ c ∈ id.hyphenatedChars,
    (slash c = false ∧ ending c = false ∧ dropped c = false) ∧ c ≠ '%' ∧ c ≠ '.' := by
  intro c member
  have all : ∀ c ∈ "0123456789abcdef-".toList,
      (slash c = false ∧ ending c = false ∧ dropped c = false) ∧ c ≠ '%' ∧ c ≠ '.' := by
    simp [slash, ending, dropped]
  exact all c (mem_hyphenatedChars member)

theorem noEscape_of_not_mem {text : List Char} (absent : '%' ∉ text) : NoEscape text := by
  intro front second third back split
  exact absurd (by rw [split]; simp) absent

theorem beforeName_plain (node : Uuid) : ∀ segment ∈ beforeName node, ∀ c ∈ segment,
    slash c = false ∧ ending c = false ∧ dropped c = false := by
  have internal : ∀ c ∈ "internal".toList,
      slash c = false ∧ ending c = false ∧ dropped c = false := by simp [slash, ending, dropped]
  have nodes : ∀ c ∈ "nodes".toList,
      slash c = false ∧ ending c = false ∧ dropped c = false := by simp [slash, ending, dropped]
  have pools : ∀ c ∈ "pools".toList,
      slash c = false ∧ ending c = false ∧ dropped c = false := by simp [slash, ending, dropped]
  intro segment member
  simp only [beforeName, List.mem_cons, List.not_mem_nil, or_false] at member
  rcases member with rfl | rfl | rfl | rfl
  · exact internal
  · exact nodes
  · exact fun c inside => (hyphenated_plain node c inside).1
  · exact pools

/-- What the client reads behind the fixed part of the URL. -/
def fromName (name : String) : List Char :=
  ((name.toList ++ "/idle".toList).filter (fun c => !dropped c)).takeWhile (fun c => !ending c)

theorem segments_idleUrl (controller : Origin) (node : Uuid) (name : String) :
    segments (idleUrl controller node name) = beforeName node ++
      (fromName name).splitOnP slash := by
  have url : idleUrl controller node name = controller.text ++ '/' ::
      ((beforeName node).flatMap (fun segment => segment ++ ['/']) ++
        (name.toList ++ "/idl".toList) ++ ['e']) := by
    simp [idleUrl, beforeName]
  have rest : name.toList ++ "/idl".toList ++ ['e'] = name.toList ++ "/idle".toList := by simp
  rw [url, segments_origin controller _ rfl, List.append_assoc, rest,
    split_known (beforeName_plain node)]
  rfl

/-- A dot segment that is not written in dots has an escape. -/
theorem dots_cases {segment : List Char} (dotted : dots segment = true) :
    segment = ['.'] ∨ segment = ['.', '.'] ∨ ¬ NoEscape segment := by
  have small : escaped 0x25 '2'.toNat 'e'.toNat ≠ none := by decide
  have large : escaped 0x25 '2'.toNat 'E'.toNat ≠ none := by decide
  simp only [dots, singleDot, doubleDot, Bool.or_eq_true, decide_eq_true_eq, List.mem_cons,
    List.not_mem_nil, or_false] at dotted
  rcases dotted with (rfl | rfl | rfl) | rfl | rfl | rfl | rfl | rfl | rfl | rfl | rfl | rfl
  · exact .inl rfl
  · exact .inr (.inr fun plain => small (plain [] '2' 'e' _ rfl))
  · exact .inr (.inr fun plain => large (plain [] '2' 'E' _ rfl))
  · exact .inr (.inl rfl)
  · exact .inr (.inr fun plain => small (plain ['.'] '2' 'e' _ rfl))
  · exact .inr (.inr fun plain => large (plain ['.'] '2' 'E' _ rfl))
  · exact .inr (.inr fun plain => small (plain [] '2' 'e' _ rfl))
  · exact .inr (.inr fun plain => large (plain [] '2' 'E' _ rfl))
  · exact .inr (.inr fun plain => small (plain [] '2' 'e' _ rfl))
  · exact .inr (.inr fun plain => small (plain [] '2' 'e' _ rfl))
  · exact .inr (.inr fun plain => large (plain [] '2' 'E' _ rfl))
  · exact .inr (.inr fun plain => large (plain [] '2' 'E' _ rfl))

theorem not_dots {name : String} (survives : Survives name) : dots name.toList = false := by
  by_contra dotted
  rcases dots_cases (Bool.not_eq_false _ ▸ dotted) with one | two | escape
  · exact survives.noDots.1 (String.toList_injective one)
  · exact survives.noDots.2 (String.toList_injective two)
  · exact escape survives.noEscape

/-- A name without signs of its own is one segment, and comes back as it is. -/
theorem idleRoute_of_survives {name : String} (survives : Survives name) (controller : Origin)
    (node : Uuid) :
    idleRoute (target (idleUrl controller node name)) = some (node.hyphenated, name) := by
  have rest : (fromName name).splitOnP slash = [name.toList, "idle".toList] := by
    have kept : name.toList.filter (fun c => !dropped c) = name.toList :=
      List.filter_eq_self.mpr (fun c member => by simp [survives.plain c member])
    have idle : "/idle".toList.filter (fun c => !dropped c) = "/idle".toList := by decide
    have ended : "/idle".toList.takeWhile (fun c => !ending c) = '/' :: "idle".toList := by decide
    rw [fromName, List.filter_append, kept, idle,
      List.takeWhile_append_of_pos (fun c member => by simp [survives.plain c member]), ended,
      List.splitOnP_append_cons_of_forall_mem (fun c member => (survives.plain c member).1) '/' rfl]
    rfl
  have fixed : dots "internal".toList = false ∧ dots "nodes".toList = false ∧
      dots "pools".toList = false ∧ dots "idle".toList = false := by decide
  have identifier : dots node.hyphenatedChars = false := by
    have plain (c : Char) (member : c ∈ node.hyphenatedChars) := (hyphenated_plain node c member).2
    by_contra dotted
    rcases dots_cases (Bool.not_eq_false _ ▸ dotted) with one | two | escape
    · exact (plain '.' (by rw [one]; decide)).2 rfl
    · exact (plain '.' (by rw [two]; decide)).2 rfl
    · exact escape (noEscape_of_not_mem (fun member => (plain '%' member).1 rfl))
  have resolved : resolve [] (segments (idleUrl controller node name)) =
      beforeName node ++ [name.toList, "idle".toList] := by
    rw [segments_idleUrl, rest, resolve_plain, List.nil_append]
    intro segment member
    simp only [beforeName, List.cons_append, List.nil_append, List.mem_cons, List.not_mem_nil,
      or_false] at member
    rcases member with rfl | rfl | rfl | rfl | rfl | rfl
    · exact fixed.1
    · exact fixed.2.1
    · exact identifier
    · exact fixed.2.2.1
    · exact not_dots survives
    · exact fixed.2.2.2
  have pool : parameter (encode name.toList) = some name :=
    (parameter_encode _ _).mpr (unescape_of_noEscape survives.noEscape)
  have id : parameter (encode node.hyphenatedChars) = some node.hyphenated := by
    refine (parameter_encode _ _).mpr ?_
    rw [Uuid.hyphenated, String.toList_ofList]
    exact unescape_of_noEscape
      (noEscape_of_not_mem (fun member => (hyphenated_plain node _ member).2.1 rfl))
  rw [idleRoute, received_target, resolved]
  simp only [beforeName, List.cons_append, List.nil_append, List.map_cons, List.map_nil]
  have literals : encode "internal".toList = utf8 "internal".toList ∧
      encode "nodes".toList = utf8 "nodes".toList ∧ encode "pools".toList = utf8 "pools".toList ∧
        encode "idle".toList = utf8 "idle".toList :=
    ⟨rfl, rfl, rfl, rfl⟩
  rw [if_pos literals, id, pool]
  rfl

/-- A match shows six segments, the last two of which come from the part behind `pools`. -/
theorem idleRoute_segments {controller : Origin} {node : Uuid} {name id pool : String}
    (found : idleRoute (target (idleUrl controller node name)) = some (id, pool)) :
    ∃ segment last, [segment, last].Sublist ((fromName name).splitOnP slash) ∧
      dots segment = false ∧ unescape segment = utf8 pool.toList ∧ 4 ≤ (utf8 last).length := by
  rw [idleRoute, received_target] at found
  split at found
  case h_2 => cases found
  case h_1 internal nodes id' pools pool' idle six =>
    split_ifs at found with literals
    obtain ⟨-, -, -, isIdle⟩ := literals
    obtain ⟨_, -, found⟩ := Option.bind_eq_some_iff.mp found
    obtain ⟨value, read, same⟩ := Option.bind_eq_some_iff.mp found
    obtain rfl : value = pool := congrArg Prod.snd (Option.some.inj same)
    simp only [List.map_eq_cons_iff, List.map_eq_nil_iff] at six
    obtain ⟨r₁, _, resolved, -, r₂, _, rfl, -, r₃, _, rfl, -, r₄, _, rfl, -, segment, _, rfl, rfl,
      last, _, rfl, rfl, rfl⟩ := six
    have whole : utf8 "idle".toList = unescape last := by
      rw [← decode_encode, isIdle]
      rfl
    have long : 4 ≤ (utf8 last).length := by
      have bound := (unescape_length last).1
      rw [← whole] at bound
      exact bound
    have member : segment ∈ resolve [] (segments (idleUrl controller node name)) := by
      rw [resolved]
      simp
    have plain : dots segment = false := by
      rcases mem_resolve member with none_there | ⟨plain, -⟩
      · cases none_there
      · exact plain
    have part : [r₁, r₂, r₃, r₄, segment, last].Sublist
        (beforeName node ++ (fromName name).splitOnP slash) := by
      rcases resolve_sublist [] (segments (idleUrl controller node name)) with part | ⟨front, ended⟩
      · rwa [resolved, segments_idleUrl, List.nil_append] at part
      · rw [resolved] at ended
        have lasts := congrArg List.getLast? ended
        simp only [List.getLast?_cons_cons, List.getLast?_singleton, List.getLast?_concat] at lasts
        rw [Option.some.inj lasts] at long
        exact absurd long (by decide)
    exact ⟨segment, last, part.drop 4, plain, (parameter_encode _ _).mp read, long⟩

/-- The name is the whole segment, and nothing of it was lost on the way. -/
theorem survives_of_idleRoute {controller : Origin} {node : Uuid} {name id : String}
    (found : idleRoute (target (idleUrl controller node name)) = some (id, name)) :
    Survives name := by
  obtain ⟨segment, last, part, plain, read, long⟩ := idleRoute_segments found
  have decoded := unescape_length segment
  rw [read] at decoded
  -- Of the bytes behind `pools/`, the two segments take all that there can be.
  have sizes := size_splitOnP (fromName name)
  have parts := length_splitOnP slash (fromName name)
  have inside : (utf8 segment).length + (utf8 last).length ≤
      (((fromName name).splitOnP slash).map (fun s => (utf8 s).length)).sum := by
    have mapped := (part.map (fun s => (utf8 s).length)).sum_le_sum (fun _ _ => Nat.zero_le _)
    simpa using mapped
  have two := part.length_le
  have cut : (fromName name).Sublist (name.toList ++ "/idle".toList) :=
    (List.takeWhile_sublist _).trans List.filter_sublist
  have bound : (utf8 (name.toList ++ "/idle".toList)).length = (utf8 name.toList).length + 5 := by
    rw [utf8_append, List.length_append]
    rfl
  have shorter := utf8_sublist cut
  simp only [List.length_cons, List.length_nil] at two
  have whole : fromName name = name.toList ++ "/idle".toList :=
    eq_of_sublist cut (by omega)
  have kept {c : Char} (member : c ∈ name.toList) : ending c = false ∧ dropped c = false := by
    have there : c ∈ fromName name := by
      rw [whole]
      exact List.mem_append_left _ member
    have taken := List.all_eq_true.mp List.all_takeWhile c there
    have listed := (List.mem_filter.mp ((List.takeWhile_sublist _).subset there)).2
    exact ⟨by simpa using taken, by simpa using listed⟩
  have slashes : name.toList.countP slash = 0 := by
    have one : "/idle".toList.countP slash = 1 := by decide
    have all : (fromName name).countP slash = name.toList.countP slash + 1 := by
      rw [whole, List.countP_append, one]
    omega
  have unslashed : ∀ c ∈ name.toList, slash c = false := fun c member => by
    simpa using List.countP_eq_zero.mp slashes c member
  have split : (fromName name).splitOnP slash = [name.toList, "idle".toList] := by
    have idle : "/idle".toList = '/' :: "idle".toList := rfl
    rw [whole, idle, List.splitOnP_append_cons_of_forall_mem unslashed '/' rfl]
    rfl
  rw [split] at part
  obtain ⟨rfl, -⟩ := List.cons.inj (part.eq_of_length rfl)
  refine ⟨⟨?_, ?_⟩, fun c member => ⟨unslashed c member, kept member⟩, decoded.2 rfl⟩
  · rintro rfl
    exact absurd plain (by decide)
  · rintro rfl
    exact absurd plain (by decide)

/-- The controller reads the name back from the URL exactly when a path takes it unchanged. -/
theorem idle_url_round_trip (controller : Origin) (node : Uuid) (name : String) :
    idleRoute (target (idleUrl controller node name)) = some (node.hyphenated, name) ↔
      Survives name :=
  ⟨survives_of_idleRoute, fun survives => idleRoute_of_survives survives controller node⟩

/-- A local controller. -/
def loopback : Origin :=
  ⟨"http".toList, "127.0.0.1:7700".toList, .inl rfl, by simp, by simp [slash, ending, dropped]⟩

def slashedPool : Pool := { Demo.otherPool with name := "jobs/night" }

/-- `create_pool` takes a name with a slash, and its URL matches no route. -/
theorem slashed_name_lost : ¬ ∀ (controller : Origin) (node : Uuid) (c : Cluster) (pool : Pool)
    (result : Section), createPool pool c = .ok result →
      idleRoute (target (idleUrl controller node pool.name)) =
        some (node.hyphenated, pool.name) := by
  intro claim
  let imported : Cluster :=
    { Cluster.empty with images := (∅ : Keyed Image.id).insert Demo.plainImage }
  have ran : createPool slashedPool imported = .ok _ := rfl
  have survives : Survives slashedPool.name :=
    survives_of_idleRoute (claim loopback Demo.node imported slashedPool _ ran)
  have slashed : '/' ∈ slashedPool.name.toList := by decide
  exact absurd (survives.plain '/' slashed).1 (by decide)

end Scraperack
