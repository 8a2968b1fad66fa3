import Scraperack.Substitution

/-! Where the order of the passes is seen. If all orders give the same and no character of a word is left, words
that do not meet the marker do not meet one another, and words that do not meet one another do not meet the
marker. -/

namespace Substitution
variable {α β : Type} [DecidableEq α]

/-! Words that do not meet the marker must not meet one another. -/

section Scan
variable {symbol : β → α} {marker : List β}

/-- A text that is not empty does not become so. -/
theorem scan_ne_nil (some_marker : marker ≠ []) {words : List (List α)}
    (some_words : ∀ w ∈ words, w ≠ []) {text : List β} (some_text : text ≠ []) :
    scan symbol marker words text ≠ [] := by
  intro none_left
  have leading : scan symbol marker words text = text ∨ _ := scan_first words some_words text
  rcases leading with same | ⟨front, back, -, same, -⟩
  · exact some_text (same ▸ none_left)
  · rw [same] at none_left
    exact some_marker (List.append_eq_nil_iff.mp (List.append_eq_nil_iff.mp none_left).2).1

theorem passes_ne_nil (some_marker : marker ≠ []) {order : List (List α)}
    (some_words : ∀ w ∈ order, w ≠ []) {text : List β} (some_text : text ≠ []) :
    passes symbol marker order text ≠ [] := by
  induction order generalizing text with
  | nil => exact some_text
  | cons w rest ih =>
    refine ih (fun v member => some_words v (List.mem_cons_of_mem w member))
      (scan_ne_nil some_marker (fun v member => ?_) some_text)
    rw [List.mem_singleton.mp member]
    exact some_words w List.mem_cons_self

/-- A marker with nothing around it stays as it is. -/
theorem passes_marker {order : List (List α)} (some_words : ∀ w ∈ order, w ≠ [])
    (neutral : ∀ w ∈ order, Neutral (marker.map symbol) w) (some_marker : marker ≠ []) :
    passes symbol marker order marker = marker := by
  have empty : passes symbol marker order [] = [] := by
    have absent : ∀ w ∈ order, ¬ w <:+: ([] : List β).map symbol := fun w member found =>
      some_words w member (List.infix_nil.mp found)
    exact passes_absent absent
  have alone := passes_gap some_words neutral some_marker [] []
  rwa [List.nil_append, List.append_nil, empty, List.nil_append, List.append_nil] at alone

/-- Where the whole text is a word, its pass leaves the marker only. -/
theorem scan_whole {w : List α} (some_word : w ≠ []) {text : List β} (whole : text.map symbol = w) :
    scan symbol marker [w] text = marker := by
  have some_text : text ≠ [] := fun none_there => some_word (by rw [← whole, none_there]; rfl)
  have all : text.drop w.length = [] := by rw [← whole, List.length_map, List.drop_length]
  rw [scan_word some_text (by simp [whole]) some_word, all, scan_nil, List.append_nil]

/-- Where a word is only a part of the text, its pass leaves more than a marker. -/
theorem scan_part (some_marker : marker ≠ []) {u : List α} (some_word : u ≠ []) {text : List β}
    (inside : u <:+: text.map symbol) (part : text.map symbol ≠ u) :
    ∃ front back, scan symbol marker [u] text = front ++ (marker ++ back) ∧
      (front ≠ [] ∨ back ≠ []) := by
  induction text with
  | nil => exact absurd (List.infix_nil.mp inside) some_word
  | cons first rest ih =>
    by_cases here : u <+: (first :: rest).map symbol
    · refine ⟨[], scan symbol marker [u] ((first :: rest).drop u.length), ?_, .inr ?_⟩
      · exact scan_word (List.cons_ne_nil _ _) (by simpa using here) some_word
      · refine scan_ne_nil some_marker (fun w member => ?_) (fun none_left => ?_)
        · rwa [List.mem_singleton.mp member]
        · have bound := List.drop_eq_nil_iff.mp none_left
          exact part (here.eq_of_length_le (by simpa using bound)).symm
    · have later : u <:+: rest.map symbol :=
        (List.infix_cons_iff.mp inside).resolve_left here
      have plain : scan symbol marker [u] (first :: rest) =
          first :: scan symbol marker [u] rest := scan_plain (fun w member => by
        rwa [List.mem_singleton.mp member])
      by_cases all : rest.map symbol = u
      · exact ⟨[first], [], by rw [plain, scan_whole some_word all]; simp,
          .inl (List.cons_ne_nil _ _)⟩
      · obtain ⟨front, back, split, -⟩ := ih later all
        exact ⟨first :: front, back, by rw [plain, split]; rfl, .inl (List.cons_ne_nil _ _)⟩

/-- When one word occurs in another, the order of the passes is seen in the result. -/
theorem passes_contained {u w : List α} {order other : List (List α)}
    (words : ∀ v ∈ u :: w :: (order ++ other), v ≠ [])
    (neutral : ∀ v ∈ u :: w :: (order ++ other), Neutral (marker.map symbol) v)
    (some_marker : marker ≠ []) (inside : u <:+: w) (different : u ≠ w) {text : List β}
    (whole : text.map symbol = w) :
    passes symbol marker (w :: order) text ≠ passes symbol marker (u :: other) text := by
  have first : passes symbol marker (w :: order) text = marker := by
    rw [passes, List.foldl_cons, scan_whole (words w (by simp)) whole, ← passes]
    exact passes_marker (fun v member => words v (by simp [member]))
      (fun v member => neutral v (by simp [member])) some_marker
  obtain ⟨front, back, split, more⟩ := scan_part some_marker (words u (by simp))
    (whole ▸ inside) (whole ▸ different.symm)
  have second : passes symbol marker (u :: other) text =
      passes symbol marker other front ++ (marker ++ passes symbol marker other back) := by
    rw [passes, List.foldl_cons, split, ← passes]
    exact passes_gap (fun v member => words v (by simp [member]))
      (fun v member => neutral v (by simp [member])) some_marker front back
  intro same
  rw [first, second] at same
  have lengths := congrArg List.length same
  simp only [List.length_append] at lengths
  have others : ∀ v ∈ other, v ≠ [] := fun v member => words v (by simp [member])
  have positive {part : List β} (some_part : part ≠ []) :
      0 < (passes symbol marker other part).length :=
    List.length_pos_iff.mpr (passes_ne_nil some_marker others some_part)
  rcases more with some_front | some_back
  · have longer := positive some_front
    omega
  · have longer := positive some_back
    omega

/-- When two words overlap, the end of the second one is left behind the marker of the first. -/
theorem passes_overlap {u z : List α} {order : List (List α)}
    (words : ∀ v ∈ u :: order, v ≠ [])
    (neutral : ∀ v ∈ u :: order, Neutral (marker.map symbol) v) (some_marker : marker ≠ [])
    (absent : ∀ v ∈ u :: order, ¬ v <:+: z) {front back : List β} (first : front.map symbol = u)
    (second : back.map symbol = z) :
    passes symbol marker (u :: order) (front ++ back) = marker ++ back := by
  have some_word := words u List.mem_cons_self
  have lengths : u.length = front.length := by rw [← first, List.length_map]
  have some_front : front ≠ [] := fun none_there => some_word (by rw [← first, none_there]; rfl)
  have begins : u <+: (front ++ back).map symbol := by
    rw [List.map_append, first]
    exact List.prefix_append _ _
  have start : scan symbol marker [u] (front ++ back) = marker ++ back := by
    rw [scan_word (List.append_ne_nil_of_left_ne_nil some_front _) (by simpa using begins)
      some_word, lengths, List.drop_left]
    congr 1
    refine scan_absent (fun v member => ?_)
    rw [List.mem_singleton.mp member, second]
    exact absent u List.mem_cons_self
  rw [passes, List.foldl_cons, start, ← passes]
  have rest := passes_gap (fun v member => words v (List.mem_cons_of_mem u member))
    (fun v member => neutral v (List.mem_cons_of_mem u member)) some_marker [] back
  have empty : passes symbol marker order ([] : List β) = [] := passes_absent
    (fun v member found => words v (List.mem_cons_of_mem u member) (List.infix_nil.mp found))
  have stays : passes symbol marker order back = back := passes_absent (fun v member => by
    rw [second]
    exact absent v (List.mem_cons_of_mem u member))
  rwa [List.nil_append, empty, stays, List.nil_append] at rest

end Scan

/-! Words that do not meet one another must not meet the marker either, as soon as there are two of them. -/

section Marked
variable {mark : List α}

omit [DecidableEq α] in
/-- A word in two parts is in one of them or goes across. -/
theorem infix_append_cases {u a b : List α} (found : u <:+: a ++ b) :
    u <:+: a ∨ u <:+: b ∨ ∃ p q, p ≠ [] ∧ q ≠ [] ∧ u = p ++ q ∧ p <:+ a ∧ q <+: b := by
  obtain ⟨s, t, split⟩ := found
  rw [List.append_assoc] at split
  rcases List.append_eq_append_iff.mp split with ⟨r, inside, rest⟩ | ⟨r, before, rest⟩
  · rcases prefix_append_cases ⟨t, rest⟩ with start | ⟨q, some_q, rfl, begins⟩
    · exact .inl (start.isInfix.trans (inside ▸ (List.suffix_append s r).isInfix))
    · by_cases some_r : r = []
      · subst some_r
        exact .inr (.inl begins.isInfix)
      · exact .inr (.inr ⟨r, q, some_r, some_q, rfl, inside ▸ List.suffix_append s r, begins⟩)
  · exact .inr (.inl ⟨r, t, by rw [List.append_assoc, rest]⟩)

omit [DecidableEq α] in
/-- A word between two parts without words is the only one there. -/
theorem Solid.alone {words : List (List α)} (solid : Solid words) {v x z : List α}
    (member : v ∈ words) (left : ∀ u ∈ words, u ≠ v → ¬ u <:+: x)
    (right : ∀ u ∈ words, u ≠ v → ¬ u <:+: z) {u : List α} (listed : u ∈ words) (other : u ≠ v) :
    ¬ u <:+: x ++ (v ++ z) := by
  have outside : ¬ v <:+: u := fun inside => other (solid.apart v member u listed inside).symm
  intro found
  rcases infix_append_cases found with inside | inside | ⟨p, q, some_p, some_q, rfl, -, begins⟩
  · exact left u listed other inside
  · rcases infix_append_cases inside with inside | inside | ⟨p, q, some_p, some_q,
      rfl, ⟨r, ends⟩, -⟩
    · exact other (solid.apart u listed v member inside)
    · exact right u listed other inside
    · by_cases some_r : r = []
      · rw [some_r, List.nil_append] at ends
        exact outside (ends ▸ (List.prefix_append p q).isInfix)
      · exact solid.free v member _ listed ⟨r, p, q, some_r, some_p, some_q, ends.symm, rfl⟩
  · rcases prefix_append_cases begins with ⟨r, starts⟩ | ⟨r, -, rfl, -⟩
    · by_cases some_r : r = []
      · rw [some_r, List.append_nil] at starts
        exact outside (starts ▸ (List.suffix_append p q).isInfix)
      · exact solid.free _ listed v member ⟨p, q, r, some_p, some_q, some_r, rfl, starts.symm⟩
    · exact outside ⟨p, r, by simp⟩

theorem passes_append (order more : List (List α)) (text : List β) (symbol : β → α)
    (marker : List β) : passes symbol marker (order ++ more) text =
      passes symbol marker more (passes symbol marker order text) := List.foldl_append

/-- Where all orders give the same, the word that is put last finds nothing that the one before it left. -/
theorem exists_settled {words : List (List α)}
    (same : ∀ order other : List (List α), order.Perm words → other.Perm words → ∀ text : List α,
      passes id mark order text = passes id mark other text) {v w text : List α} (first : v ∈ words)
    (second : w ∈ words) (different : w ≠ v)
    (alone : ∀ u ∈ words, u ≠ v → ¬ u <:+: text) :
    ∃ m n, passes id mark (List.replicate (n + 1) w)
      (passes id mark (List.replicate (m + 1) v) text) =
        passes id mark (List.replicate (m + 1) v) text := by
  obtain ⟨m, counted⟩ := Nat.exists_eq_add_of_lt (List.count_pos_iff.mpr first)
  obtain ⟨n, counted'⟩ := Nat.exists_eq_add_of_lt (List.count_pos_iff.mpr second)
  rw [Nat.zero_add] at counted counted'
  let others := words.filter (fun u => decide (u ≠ v) && decide (u ≠ w))
  have perm : (others ++ (List.replicate (n + 1) w ++ List.replicate (m + 1) v)).Perm words := by
    refine List.perm_iff_count.mpr fun u => ?_
    rw [List.count_append, List.count_append, List.count_replicate, List.count_replicate]
    by_cases isV : u = v
    · subst isV
      have absent : others.count u = 0 := List.count_eq_zero.mpr (by simp [others])
      simp [absent, different, counted]
    · by_cases isW : u = w
      · subst isW
        have absent : others.count u = 0 := List.count_eq_zero.mpr (by simp [others])
        simp [absent, Ne.symm different, counted']
      · have kept : others.count u = words.count u := by
          rw [List.count_filter (by simp [isV, isW])]
        simp [kept, Ne.symm isV, Ne.symm isW]
  have swapped : (others ++ (List.replicate (m + 1) v ++ List.replicate (n + 1) w)).Perm words :=
    (List.perm_append_comm.append_left others).trans perm
  have stays {order : List (List α)} (sub : ∀ u ∈ order, u ∈ words ∧ u ≠ v) :
      passes id mark order text = text := by
    refine passes_absent fun u member => ?_
    rw [List.map_id]
    exact alone u (sub u member).1 (sub u member).2
  have apart : passes id mark others text = text := stays fun u member => by
    have kept := List.mem_filter.mp member
    simp only [Bool.and_eq_true, decide_eq_true_eq] at kept
    exact ⟨kept.1, kept.2.1⟩
  have unseen : passes id mark (List.replicate (n + 1) w) text = text := stays fun u member =>
    (List.eq_of_mem_replicate member) ▸ ⟨second, different⟩
  have agree := same _ _ swapped perm text
  rw [passes_append, passes_append, passes_append, passes_append, apart, unseen] at agree
  exact ⟨m, n, agree⟩

omit [DecidableEq α] in
/-- No word occurs in a part of another one. -/
theorem Solid.none_in_part {words : List (List α)} (solid : Solid words) {w part : List α}
    (member : w ∈ words) (inside : part <:+: w) (shorter : part.length < w.length) :
    ∀ u ∈ words, ¬ u <:+: part := by
  intro u listed found
  have equal := solid.apart u listed w member (found.trans inside)
  have bound := found.length_le
  rw [equal] at bound
  omega

omit [DecidableEq α] in
theorem Solid.alone_in {words : List (List α)} (solid : Solid words) {v x z : List α}
    (first : v ∈ words) (left : ∀ u ∈ words, ¬ u <:+: x) (right : ∀ u ∈ words, ¬ u <:+: z) :
    ∀ u ∈ words, u ≠ v → ¬ u <:+: x ++ (v ++ z) :=
  fun _ listed other => solid.alone first (fun u there _ => left u there)
    (fun u there _ => right u there) listed other

/-- The marker's first symbol stands nowhere else in it, and neither does its last. -/
structure Bracketed (mark : List α) : Prop where
  some_mark : mark ≠ []
  first : ∀ x c, mark = x ++ c → x ≠ [] → c.head? ≠ mark.head?
  last : ∀ c z, mark = c ++ z → z ≠ [] → c.getLast? ≠ mark.getLast?

namespace Bracketed
variable (bracketed : Bracketed mark)
include bracketed

omit [DecidableEq α] in
theorem at_end {front back x : List α} (absent : ¬ mark <:+: x)
    (same : front ++ (mark ++ back) = x ++ mark) : front = x ∧ back = [] := by
  rcases List.append_eq_append_iff.mp same with ⟨r, inside, rest⟩ | ⟨r, before, rest⟩
  · by_cases some_r : r = []
    · subst some_r
      exact ⟨by simpa using inside.symm, by simpa using rest⟩
    · exfalso
      rcases prefix_append_cases ⟨back, rest⟩ with within | ⟨q, some_q, split, begins⟩
      · exact absent (within.isInfix.trans (inside ▸ (List.suffix_append front r).isInfix))
      · obtain ⟨first, others, rfl⟩ := List.exists_cons_of_ne_nil some_q
        obtain ⟨t, ends⟩ := begins
        refine bracketed.first r _ split some_r ?_
        rw [← ends]
        rfl
  · have lengths := congrArg List.length rest
    simp only [List.length_append] at lengths
    have none_left : r = [] := List.length_eq_zero_iff.mp (by omega)
    have none_back : back = [] := List.length_eq_zero_iff.mp (by omega)
    exact ⟨by rw [before, none_left, List.append_nil], none_back⟩

omit [DecidableEq α] in
theorem at_start {front back z : List α} (absent : ¬ mark <:+: z)
    (same : front ++ (mark ++ back) = mark ++ z) : front = [] := by
  rcases List.append_eq_append_iff.mp same with ⟨r, inside, rest⟩ | ⟨r, before, rest⟩
  · by_contra some_front
    by_cases some_r : r = []
    · subst some_r
      exact absent ⟨[], back, by simpa using rest⟩
    · obtain ⟨first, others, rfl⟩ := List.exists_cons_of_ne_nil some_r
      obtain ⟨head, tail, split⟩ := List.exists_cons_of_ne_nil bracketed.some_mark
      refine bracketed.first front _ inside some_front ?_
      rw [split, List.cons_append, List.cons_append] at rest
      rw [split, List.head?_cons, List.head?_cons, (List.cons.inj rest).1]
  · exact absurd ⟨r, back, by rw [List.append_assoc, rest]⟩ absent

omit [DecidableEq α] in
theorem borderless : ¬ Overlap mark mark := by
  rintro ⟨x, c, z, some_x, some_c, -, back, front⟩
  obtain ⟨head, tail, rfl⟩ := List.exists_cons_of_ne_nil some_c
  refine bracketed.first x _ back some_x ?_
  rw [front]
  rfl

end Bracketed

section Again
variable {w : List α} (some_word : w ≠ [])
include some_word

variable (mark) in
/-- Where the word occurs, its first occurrence is replaced, and the rest is scanned. -/
theorem exists_replaced {text : List α} (inside : w <:+: text) :
    ∃ front rest, text = front ++ (w ++ rest) ∧
      scan id mark [w] text = front ++ (mark ++ scan id mark [w] rest) := by
  induction text with
  | nil => exact absurd (List.infix_nil.mp inside) some_word
  | cons first text ih =>
    by_cases here : w <+: first :: text
    · obtain ⟨rest, split⟩ := here
      refine ⟨[], rest, split.symm, ?_⟩
      have found : [w].find? (fun w => w.isPrefixOf ((first :: text).map id)) = some w := by
        rw [List.map_id, ← split]
        simp
      rw [scan_word (List.cons_ne_nil _ _) found some_word, ← split, List.drop_left]
      rfl
    · obtain ⟨front, rest, split, replaced⟩ :=
        ih ((List.infix_cons_iff.mp inside).resolve_left here)
      have plain : scan id mark [w] (first :: text) = first :: scan id mark [w] text :=
        scan_plain (fun u member => by rwa [List.mem_singleton.mp member, List.map_id])
      exact ⟨first :: front, rest, by rw [split]; rfl, by rw [plain, replaced]; rfl⟩

omit some_word in
theorem scan_unchanged {text : List α} (absent : ¬ w <:+: text) :
    scan id mark [w] text = text :=
  scan_absent (fun u member => by rwa [List.mem_singleton.mp member, List.map_id])

omit some_word in
theorem infix_of_infix_scan {text : List α} (inside : w <:+: scan id mark [w] text) :
    w <:+: text := by
  by_contra missing
  rw [scan_unchanged missing] at inside
  exact missing inside

variable (mark) in
/-- A text is induced on from one occurrence of the word to the next. -/
theorem scan_induction {motive : List α → Prop}
    (unchanged : ∀ text, ¬ w <:+: text → motive text)
    (replaced : ∀ front rest,
      scan id mark [w] (front ++ (w ++ rest)) = front ++ (mark ++ scan id mark [w] rest) →
        motive rest → motive (front ++ (w ++ rest))) (text : List α) : motive text := by
  induction size : text.length using Nat.strong_induction_on generalizing text with
  | _ n ih =>
    subst size
    by_cases there : w <:+: text
    · obtain ⟨front, rest, rfl, found⟩ := exists_replaced mark some_word there
      have positive := List.length_pos_iff.mpr some_word
      refine replaced front rest found (ih _ ?_ rest rfl)
      simp only [List.length_append]
      omega
    · exact unchanged text there

omit some_word in
theorem passes_unchanged {text : List α} (absent : ¬ w <:+: text) (n : Nat) :
    passes id mark (List.replicate n w) text = text :=
  passes_absent (fun u member => by rwa [List.eq_of_mem_replicate member, List.map_id])

omit some_word in
theorem passes_replicate_succ (n : Nat) (text : List α) :
    passes id mark (List.replicate (n + 1) w) text =
      passes id mark (List.replicate n w) (scan id mark [w] text) := rfl

theorem infix_scan {text : List α} (inside : mark <:+: text) : mark <:+: scan id mark [w] text := by
  by_cases there : w <:+: text
  · obtain ⟨front, rest, -, replaced⟩ := exists_replaced mark some_word there
    exact ⟨front, scan id mark [w] rest, by rw [replaced, List.append_assoc]⟩
  · rwa [scan_unchanged there]

theorem infix_passes {text : List α} (inside : mark <:+: text) (n : Nat) :
    mark <:+: passes id mark (List.replicate n w) text := by
  induction n generalizing text with
  | zero => exact inside
  | succ n ih => exact ih (infix_scan some_word inside)

theorem head_scan (some_mark : mark ≠ []) (text : List α) :
    (scan id mark [w] text).head? = mark.head? ∨ (scan id mark [w] text).head? = text.head? := by
  by_cases there : w <:+: text
  · obtain ⟨front, rest, split, replaced⟩ := exists_replaced mark some_word there
    obtain ⟨first, others, marked⟩ := List.exists_cons_of_ne_nil some_mark
    rw [replaced, split]
    cases front with
    | nil => exact .inl (by rw [marked]; rfl)
    | cons head front => exact .inr rfl
  · exact .inr (by rw [scan_unchanged there])

theorem last_scan (some_mark : mark ≠ []) (text : List α) :
    (scan id mark [w] text).getLast? = mark.getLast? ∨
      (scan id mark [w] text).getLast? = text.getLast? := by
  induction text using scan_induction mark some_word with
  | unchanged text there => exact .inr (by rw [scan_unchanged there])
  | replaced front rest replaced ih =>
    by_cases some_rest : rest = []
    · subst some_rest
      left
      rw [replaced, scan_nil, List.append_nil, List.getLast?_append_of_ne_nil _ some_mark]
    · have left_over : scan id mark [w] rest ≠ [] := by
        refine scan_ne_nil some_mark (fun u member => ?_) some_rest
        rwa [List.mem_singleton.mp member]
      rw [replaced, ← List.append_assoc, List.getLast?_append_of_ne_nil _ left_over,
        ← List.append_assoc, List.getLast?_append_of_ne_nil _ some_rest]
      exact ih

theorem length_scan (short : w.length ≤ mark.length) (text : List α) :
    text.length ≤ (scan id mark [w] text).length := by
  induction text using scan_induction mark some_word with
  | unchanged text there => rw [scan_unchanged there]
  | replaced front rest replaced ih =>
    rw [replaced]
    simp only [List.length_append]
    omega

/-- A short word is found in every marker again and again. -/
theorem grows (inside : w <:+: mark) (different : w ≠ mark) {text : List α}
    (marked : mark <:+: text) (n : Nat) :
    text.length < (passes id mark (List.replicate (n + 1) w) text).length := by
  have short : w.length < mark.length :=
    lt_of_le_of_ne inside.length_le (fun same => different (inside.eq_of_length same))
  have once (text : List α) (marked : mark <:+: text) :
      text.length < (scan id mark [w] text).length := by
    obtain ⟨front, rest, split, replaced⟩ :=
      exists_replaced mark some_word (inside.trans marked)
    have later := length_scan some_word short.le rest
    rw [replaced, split]
    simp only [List.length_append]
    omega
  induction n generalizing text with
  | zero => exact once text marked
  | succ n ih => exact (once text marked).trans (ih (infix_scan some_word marked))

/-- A word that ends as the marker begins does not give back the marker it takes away. -/
theorem not_back_before (bracketed : Bracketed mark) {x c z : List α} (some_c : c ≠ [])
    (some_z : z ≠ []) (word : w = x ++ c) (marker : mark = c ++ z) (absent : ¬ mark <:+: x)
    {text : List α} (ends : text.getLast? = mark.getLast?) (n : Nat) :
    passes id mark (List.replicate (n + 1) w) text ≠ x ++ mark := by
  intro back
  have inside : w <:+: x ++ mark := by
    rw [word, marker, ← List.append_assoc]
    exact (List.prefix_append _ _).isInfix
  induction n generalizing text with
  | zero =>
    have once : scan id mark [w] text = x ++ mark := back
    have there : w <:+: text := infix_of_infix_scan (once ▸ inside)
    obtain ⟨front, rest, split, replaced⟩ := exists_replaced mark some_word there
    obtain ⟨-, none_left⟩ := bracketed.at_end absent (replaced.symm.trans once)
    have none_rest : rest = [] := by
      by_contra some_rest
      refine scan_ne_nil bracketed.some_mark (fun u member => ?_) some_rest none_left
      rwa [List.mem_singleton.mp member]
    refine bracketed.last c z marker some_z ?_
    rw [← ends, split, none_rest, List.append_nil, word, ← List.append_assoc,
      List.getLast?_append_of_ne_nil _ some_c]
  | succ n ih =>
    refine ih ?_ back
    rcases last_scan some_word bracketed.some_mark text with marked | same
    · exact marked
    · exact same.trans ends

/-- Likewise a word that begins as the marker ends. -/
theorem not_back_after (bracketed : Bracketed mark) {x c z : List α} (some_x : x ≠ [])
    (some_c : c ≠ []) (marker : mark = x ++ c) (word : w = c ++ z) (absent : ¬ mark <:+: z)
    {text : List α} (starts : text.head? = mark.head?) (n : Nat) :
    passes id mark (List.replicate (n + 1) w) text ≠ mark ++ z := by
  intro back
  have inside : w <:+: mark ++ z := by
    rw [word, marker, List.append_assoc]
    exact (List.suffix_append _ _).isInfix
  induction n generalizing text with
  | zero =>
    have once : scan id mark [w] text = mark ++ z := back
    have there : w <:+: text := infix_of_infix_scan (once ▸ inside)
    obtain ⟨front, rest, split, replaced⟩ := exists_replaced mark some_word there
    have at_once := bracketed.at_start absent (replaced.symm.trans once)
    obtain ⟨head, tail, first⟩ := List.exists_cons_of_ne_nil some_c
    refine bracketed.first x c marker some_x ?_
    rw [← starts, split, at_once, word, first]
    rfl
  | succ n ih =>
    refine ih ?_ back
    rcases head_scan some_word bracketed.some_mark text with marked | same
    · exact marked
    · exact same.trans starts

end Again

section Settled
variable {words : List (List α)} (solid : Solid words)
  (same : ∀ order other : List (List α), order.Perm words → other.Perm words → ∀ text : List α,
    passes id mark order text = passes id mark other text)
include solid

/-- A word between two parts without words is replaced once, by its first pass. -/
theorem passes_alone {v x z : List α} (first : v ∈ words) (left : ∀ u ∈ words, ¬ u <:+: x)
    (right : ∀ u ∈ words, ¬ u <:+: z) (after : ¬ v <:+: x ++ (mark ++ z)) (m : Nat) :
    passes id mark (List.replicate (m + 1) v) (x ++ (v ++ z)) = x ++ (mark ++ z) := by
  have single : Solid [v.map id] := solid.mono (fun u member => by
    rwa [List.mem_singleton.mp member, List.map_id])
  have replaced : scan id mark [v.map id] (x ++ (v ++ z)) =
      scan id mark [v.map id] x ++ (mark ++ scan id mark [v.map id] z) :=
    scan_spaced (solid.nonempty v first) (single.spaced _)
  rw [List.map_id] at replaced
  rw [passes_replicate_succ, replaced, scan_unchanged (left v first), scan_unchanged (right v first)]
  exact passes_unchanged after m

include same

/-- Of two words, none is inside the marker. -/
theorem outside_of_same {v w : List α} (first : v ∈ words)
    (second : w ∈ words) (different : w ≠ v) (unmarked : w ≠ mark) : ¬ w <:+: mark := by
  intro inside
  have alone : ∀ u ∈ words, u ≠ v → ¬ u <:+: v := fun u listed other found =>
    other (solid.apart u listed v first found)
  obtain ⟨m, n, settled⟩ := exists_settled same first second different alone
  have replaced : mark <:+: passes id mark (List.replicate (m + 1) v) v := by
    rw [passes_replicate_succ, scan_whole (solid.nonempty v first) (List.map_id v)]
    exact infix_passes (solid.nonempty v first) (List.infix_refl mark) m
  have longer := grows (solid.nonempty w second) inside unmarked replaced n
  rw [settled] at longer
  exact lt_irrefl _ longer

/-- Of two words, none is around the marker. -/
theorem around_of_same (some_mark : mark ≠ []) {v w : List α} (first : v ∈ words)
    (second : w ∈ words) (different : w ≠ v) (unmarked : w ≠ mark) : ¬ mark <:+: w := by
  rintro ⟨x, z, split⟩
  have positive := List.length_pos_iff.mpr some_mark
  have lengths := congrArg List.length split
  simp only [List.length_append] at lengths
  rw [List.append_assoc] at split
  have left := solid.none_in_part second ⟨[], mark ++ z, split⟩ (by omega)
  have right := solid.none_in_part second ⟨x ++ mark, [], by simpa using split⟩ (by omega)
  have after : ¬ v <:+: x ++ (mark ++ z) := fun found =>
    different (solid.apart v first w second (split ▸ found)).symm
  obtain ⟨m, n, settled⟩ := exists_settled same first second different
    (solid.alone_in first left right)
  have gone : ¬ w <:+: mark := fun inside => by
    have bound := inside.length_le
    exact unmarked (inside.eq_of_length (by omega))
  rw [passes_alone solid first left right after, split, passes_replicate_succ,
    scan_whole (solid.nonempty w second) (List.map_id w), passes_unchanged gone] at settled
  exact unmarked settled.symm

/-- Of two words, none goes on into the marker. -/
theorem before_of_same (bracketed : Bracketed mark) {v w : List α} (first : v ∈ words)
    (second : w ∈ words) (different : w ≠ v) (unmarked : w ≠ mark) : ¬ Overlap w mark := by
  rintro ⟨x, c, z, some_x, some_c, some_z, word, marker⟩
  have around := around_of_same solid same bracketed.some_mark first second different unmarked
  have other : v ≠ mark := fun equal => solid.free w second v first
    ⟨x, c, z, some_x, some_c, some_z, word, equal.trans marker⟩
  have outside := outside_of_same solid same second first (Ne.symm different) other
  have apart : ¬ v <:+: w := fun found => different (solid.apart v first w second found).symm
  have apart' : ¬ w <:+: v := fun found => different (solid.apart w second v first found)
  have positive := List.length_pos_iff.mpr some_c
  have left := solid.none_in_part second ⟨[], c, word.symm⟩
    (by rw [word, List.length_append]; omega)
  have right : ∀ u ∈ words, ¬ u <:+: [] := fun u listed found =>
    solid.nonempty u listed (List.infix_nil.mp found)
  have after : ¬ v <:+: x ++ (mark ++ []) := by
    rw [List.append_nil]
    intro found
    rcases infix_append_cases found with inside | inside | ⟨p, q, some_p, -, rfl, ⟨a, ends⟩, begins⟩
    · exact left v first inside
    · exact outside inside
    · rcases List.prefix_or_prefix_of_prefix begins ⟨z, marker.symm⟩ with ⟨r, part⟩ | ⟨r, part⟩
      · exact apart ⟨a, r, by rw [word, ← ends, ← part]; simp⟩
      · by_cases some_r : r = []
        · subst some_r
          rw [List.append_nil] at part
          exact apart ⟨a, [], by rw [word, ← ends, part]; simp⟩
        · by_cases some_a : a = []
          · subst some_a
            exact apart' ⟨[], r, by rw [word, ← ends, ← part]; simp⟩
          · exact solid.free w second _ first ⟨a, p ++ c, r, some_a, by simp [some_c], some_r,
              by rw [word, ← ends]; simp, by rw [← part]; simp⟩
  obtain ⟨m, n, settled⟩ := exists_settled same first second different
    (solid.alone_in first left right)
  rw [passes_alone solid first left right after, List.append_nil] at settled
  refine not_back_before (solid.nonempty w second) bracketed some_c some_z word marker
    (fun found => around (found.trans ⟨[], c, word.symm⟩)) ?_ n settled
  rw [List.getLast?_append_of_ne_nil _ bracketed.some_mark]

/-- Of two words, none comes out of the marker. -/
theorem after_of_same (bracketed : Bracketed mark) {v w : List α} (first : v ∈ words)
    (second : w ∈ words) (different : w ≠ v) (unmarked : w ≠ mark) : ¬ Overlap mark w := by
  rintro ⟨x, c, z, some_x, some_c, some_z, marker, word⟩
  have around := around_of_same solid same bracketed.some_mark first second different unmarked
  have other : v ≠ mark := fun equal => solid.free v first w second
    ⟨x, c, z, some_x, some_c, some_z, equal.trans marker, word⟩
  have outside := outside_of_same solid same second first (Ne.symm different) other
  have apart : ¬ v <:+: w := fun found => different (solid.apart v first w second found).symm
  have apart' : ¬ w <:+: v := fun found => different (solid.apart w second v first found)
  have positive := List.length_pos_iff.mpr some_c
  have right := solid.none_in_part second ⟨c, [], by rw [word, List.append_nil]⟩
    (by rw [word, List.length_append]; omega)
  have left : ∀ u ∈ words, ¬ u <:+: [] := fun u listed found =>
    solid.nonempty u listed (List.infix_nil.mp found)
  have after : ¬ v <:+: [] ++ (mark ++ z) := by
    rw [List.nil_append]
    intro found
    rcases infix_append_cases found with inside | inside | ⟨p, q, -, some_q, rfl, begins, ⟨r, ends⟩⟩
    · exact outside inside
    · exact right v first inside
    · rcases List.suffix_or_suffix_of_suffix begins ⟨x, marker.symm⟩ with ⟨a, part⟩ | ⟨a, part⟩
      · exact apart ⟨a, r, by rw [word, ← ends, ← part]; simp⟩
      · by_cases some_a : a = []
        · subst some_a
          rw [List.nil_append] at part
          exact apart ⟨[], r, by rw [word, ← ends, part]; simp⟩
        · by_cases some_r : r = []
          · subst some_r
            exact apart' ⟨a, [], by rw [word, ← ends, ← part]; simp⟩
          · exact solid.free _ first w second ⟨a, c ++ q, r, some_a, by simp [some_c], some_r,
              by rw [← part]; simp, by rw [word, ← ends]; simp⟩
  obtain ⟨m, n, settled⟩ := exists_settled same first second different
    (solid.alone_in first left right)
  rw [passes_alone solid first left right after, List.nil_append] at settled
  refine not_back_after (solid.nonempty w second) bracketed some_x some_c marker word
    (fun found => around (found.trans ⟨c, [], by rw [word, List.append_nil]⟩)) ?_ n settled
  obtain ⟨head, tail, split⟩ := List.exists_cons_of_ne_nil bracketed.some_mark
  rw [split]
  rfl

/-- Where all orders give the same and there are two words, none of them meets the marker. -/
theorem neutral_of_same (bracketed : Bracketed mark) {v w : List α} (first : v ∈ words)
    (second : w ∈ words) (different : w ≠ v) : Neutral mark w := by
  by_cases unmarked : w = mark
  · subst unmarked
    exact ⟨fun other => absurd rfl other, fun other => absurd rfl other, bracketed.borderless,
      bracketed.borderless⟩
  · exact ⟨fun _ => outside_of_same solid same first second different unmarked,
      fun _ => around_of_same solid same bracketed.some_mark first second different unmarked,
      before_of_same solid same bracketed first second different unmarked,
      after_of_same solid same bracketed first second different unmarked⟩

end Settled

end Marked

end Substitution
