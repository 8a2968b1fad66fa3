import Mathlib.Data.List.Infix

/-! Replacing words in a text by a marker. A scanner goes over the text from the left and replaces each
word that it meets, and the words have one pass each. Where the occurrences in a text stand apart and no word
meets the marker, every occurrence is replaced, in whatever order the words come. -/

namespace Substitution
variable {α β : Type} [DecidableEq α]

/-- A nonempty proper end of the first word is a proper beginning of the second. -/
def Overlap (u w : List α) : Prop :=
  ∃ x c z, x ≠ [] ∧ c ≠ [] ∧ z ≠ [] ∧ u = x ++ c ∧ w = c ++ z

/-- No word occurs in another one or overlaps with one, itself included. -/
structure Solid (words : List (List α)) : Prop where
  nonempty : ∀ w ∈ words, w ≠ []
  apart : ∀ u ∈ words, ∀ w ∈ words, u <:+: w → u = w
  free : ∀ u ∈ words, ∀ w ∈ words, ¬ Overlap u w

/-- The word and the mark do not meet, unless they are the same. -/
structure Neutral (mark w : List α) : Prop where
  outside : w ≠ mark → ¬ w <:+: mark
  around : w ≠ mark → ¬ mark <:+: w
  before : ¬ Overlap w mark
  after : ¬ Overlap mark w

omit [DecidableEq α] in
theorem Solid.mono {words more : List (List α)} (solid : Solid more)
    (sub : ∀ w ∈ words, w ∈ more) : Solid words :=
  ⟨fun w member => solid.nonempty w (sub w member),
    fun u first w second => solid.apart u (sub u first) w (sub w second),
    fun u first w second => solid.free u (sub u first) w (sub w second)⟩

omit [DecidableEq α] in
/-- A word at the beginning of two parts is inside the first or goes on into the second. -/
theorem prefix_append_cases {w a b : List α} (found : w <+: a ++ b) :
    w <+: a ∨ ∃ q, q ≠ [] ∧ w = a ++ q ∧ q <+: b := by
  rcases List.prefix_or_prefix_of_prefix found (List.prefix_append a b) with inside | ⟨q, rfl⟩
  · exact .inl inside
  · cases q with
    | nil => exact .inl (by simp)
    | cons head rest =>
      exact .inr ⟨_, List.cons_ne_nil _ _, rfl, (List.prefix_append_right_inj a).mp found⟩

omit [DecidableEq α] in
/-- Two words that begin one text are the same when neither occurs in the other. -/
theorem Solid.unique {words : List (List α)} (solid : Solid words) {u w text : List α}
    (first : u ∈ words) (second : w ∈ words) (atU : u <+: text) (atW : w <+: text) : u = w := by
  rcases List.prefix_or_prefix_of_prefix atU atW with inside | inside
  · exact solid.apart u first w second inside.isInfix
  · exact (solid.apart w second u first inside.isInfix).symm

omit [DecidableEq α] in
/-- Where a word of the list begins, no other one that began before goes on. -/
theorem Solid.stops {words : List (List α)} (solid : Solid words) {u w gap text : List α}
    (first : u ∈ words) (second : w ∈ words) (some_gap : gap ≠ []) (next : w <+: text)
    (found : u <+: gap ++ text) : u <+: gap := by
  rcases prefix_append_cases found with inside | ⟨q, some_q, rfl, here⟩
  · exact inside
  · exfalso
    rcases List.prefix_or_prefix_of_prefix here next with ⟨z, rfl⟩ | within
    · cases z with
      | nil =>
        rw [List.append_nil] at second
        have same := solid.apart q second (gap ++ q) first (List.suffix_append gap q).isInfix
        exact some_gap (List.self_eq_append_left.mp same)
      | cons head rest =>
        exact solid.free _ first _ second
          ⟨gap, q, head :: rest, some_gap, some_q, List.cons_ne_nil _ _, rfl, rfl⟩
    · have part : w <:+: gap ++ q := within.isInfix.trans (List.suffix_append gap q).isInfix
      have same := solid.apart w second _ first part
      have longer := within.length_le
      rw [same, List.length_append] at longer
      have positive := List.length_pos_iff.mpr some_gap
      omega

omit [DecidableEq α] in
/-- A word that begins before a mark ends before it. -/
theorem Neutral.stops {mark w gap text : List α} (neutral : Neutral mark w) (some_mark : mark ≠ [])
    (some_gap : gap ≠ []) (found : w <+: gap ++ (mark ++ text)) : w <+: gap := by
  have longer (q : List α) (same : gap ++ (mark ++ q) = mark) : False := by
    have lengths := congrArg List.length same
    simp only [List.length_append] at lengths
    have positive := List.length_pos_iff.mpr some_gap
    omega
  rcases prefix_append_cases found with inside | ⟨q, some_q, rfl, here⟩
  · exact inside
  · exfalso
    rcases prefix_append_cases here with ⟨z, same⟩ | ⟨r, -, rfl, -⟩
    · cases z with
      | nil =>
        rw [List.append_nil] at same
        subst same
        exact neutral.around (fun same => longer [] (by simpa using same))
          (List.suffix_append gap q).isInfix
      | cons head rest =>
        exact neutral.before
          ⟨gap, q, head :: rest, some_gap, some_q, List.cons_ne_nil _ _, rfl, same.symm⟩
    · exact neutral.around (fun same => longer r same) ⟨gap, r, by simp⟩

omit [DecidableEq α] in
/-- No word begins inside a mark. -/
theorem Neutral.skips {mark w front back text : List α} (neutral : Neutral mark w)
    (some_word : w ≠ []) (split : mark = front ++ back) (some_back : back ≠ [])
    (inner : w = mark → front ≠ []) : ¬ w <+: back ++ text := by
  intro found
  have smaller : front ≠ [] → w <+: back → w ≠ mark := by
    intro some_front inside same
    have shorter := inside.length_le
    rw [same, split, List.length_append] at shorter
    have positive := List.length_pos_iff.mpr some_front
    omega
  have inside_mark : w <+: back → w <:+: mark := fun inside =>
    inside.isInfix.trans (split ▸ (List.suffix_append front back).isInfix)
  rcases prefix_append_cases found with inside | ⟨q, some_q, rfl, -⟩
  · by_cases same : w = mark
    · exact smaller (inner same) inside same
    · exact neutral.outside same (inside_mark inside)
  · by_cases some_front : front = []
    · subst some_front
      rw [List.nil_append] at split
      refine neutral.around (fun same => ?_) (split ▸ (List.prefix_append back q).isInfix)
      rw [split] at same
      exact some_q (by simpa using same)
    · exact neutral.after ⟨front, back, q, some_front, some_back, some_q, split, rfl⟩

/-! The scanner. The elements of a text carry symbols, and may carry more. -/

section Scan
variable (symbol : β → α) (marker : List β)

/-- The words are replaced by the marker from the left; the number says how much of a replaced word is still to be
passed over. -/
def scanFrom (words : List (List α)) : Nat → List β → List β
  | _, [] => []
  | skip + 1, _ :: rest => scanFrom words skip rest
  | 0, first :: rest =>
    match words.find? (fun w => w.isPrefixOf (symbol first :: rest.map symbol)) with
    | some w => marker ++ scanFrom words (w.length - 1) rest
    | none => first :: scanFrom words 0 rest

def scan (words : List (List α)) (text : List β) : List β := scanFrom symbol marker words 0 text

variable {symbol marker}

theorem scanFrom_skip (words : List (List α)) (skip : Nat) (text : List β) :
    scanFrom symbol marker words skip text = scan symbol marker words (text.drop skip) := by
  induction skip generalizing text with
  | zero => rfl
  | succ skip ih =>
    cases text with
    | nil => rfl
    | cons first rest => exact ih rest

@[simp] theorem scan_nil (words : List (List α)) : scan symbol marker words [] = [] := rfl

/-- A word at the beginning of the text is replaced. -/
theorem scan_word {words : List (List α)} {w : List α} {text : List β} (some_text : text ≠ [])
    (found : words.find? (fun w => w.isPrefixOf (text.map symbol)) = some w) (some_word : w ≠ []) :
    scan symbol marker words text = marker ++ scan symbol marker words (text.drop w.length) := by
  cases text with
  | nil => exact absurd rfl some_text
  | cons first rest =>
    have positive := List.length_pos_iff.mpr some_word
    rw [scan, scanFrom, ← List.map_cons, found]
    dsimp only
    rw [scanFrom_skip]
    congr 2
    rw [show w.length = w.length - 1 + 1 by omega, List.drop_succ_cons]
    rfl

/-- Where no word begins the text stays. -/
theorem scan_plain {words : List (List α)} {first : β} {rest : List β}
    (none_here : ∀ w ∈ words, ¬ w <+: (first :: rest).map symbol) :
    scan symbol marker words (first :: rest) = first :: scan symbol marker words rest := by
  have found : words.find? (fun w => w.isPrefixOf ((first :: rest).map symbol)) = none :=
    List.find?_eq_none.mpr fun w member => by simpa using none_here w member
  rw [scan, scanFrom, ← List.map_cons, found]
  rfl

/-- What is in the result was there before or belongs to a marker. -/
theorem mem_scan {words : List (List α)} {text : List β} {e : β}
    (member : e ∈ scan symbol marker words text) : e ∈ marker ∨ e ∈ text := by
  have general (skip : Nat) (text : List β) (member : e ∈ scanFrom symbol marker words skip text) :
      e ∈ marker ∨ e ∈ text := by
    induction text generalizing skip with
    | nil => cases skip <;> cases member
    | cons first rest ih =>
      cases skip with
      | succ skip => exact (ih skip member).imp_right (List.mem_cons_of_mem _)
      | zero =>
        unfold scanFrom at member
        split at member
        · rcases List.mem_append.mp member with inside | later
          · exact .inl inside
          · exact (ih _ later).imp_right (List.mem_cons_of_mem _)
        · rcases List.mem_cons.mp member with rfl | later
          · exact .inr List.mem_cons_self
          · exact (ih _ later).imp_right (List.mem_cons_of_mem _)
  exact general 0 text member

/-- Scanning looks at the symbols only. -/
theorem map_scan {γ : Type} (f : β → γ) {letter : γ → α} (same : ∀ e, letter (f e) = symbol e)
    (words : List (List α)) (text : List β) :
    (scan symbol marker words text).map f = scan letter (marker.map f) words (text.map f) := by
  have general (skip : Nat) (text : List β) : (scanFrom symbol marker words skip text).map f =
      scanFrom letter (marker.map f) words skip (text.map f) := by
    induction text generalizing skip with
    | nil => cases skip <;> rfl
    | cons first rest ih =>
      cases skip with
      | succ skip => exact ih skip
      | zero =>
        have letters : letter ∘ f = symbol := funext same
        simp only [scanFrom, List.map_cons, List.map_map, letters, same]
        split
        · rw [List.map_append, ih]
        · rw [List.map_cons, ih]
  exact general 0 text

/-- A part of the text in which no word begins stays. -/
theorem scan_skips {words : List (List α)} (front text : List β)
    (none_here : ∀ a b, front = a ++ b → b ≠ [] → ∀ w ∈ words,
      ¬ w <+: b.map symbol ++ text.map symbol) :
    scan symbol marker words (front ++ text) = front ++ scan symbol marker words text := by
  induction front with
  | nil => rfl
  | cons first rest ih =>
    rw [List.cons_append, scan_plain, ih, List.cons_append]
    · intro a b split some_b
      exact none_here (first :: a) b (by rw [split, List.cons_append]) some_b
    · intro w member
      have whole := none_here [] (first :: rest) rfl (List.cons_ne_nil _ _) w member
      simpa using whole

/-- The result begins with what precedes the first word, and then with a marker. -/
theorem scan_first (words : List (List α)) (some_words : ∀ w ∈ words, w ≠ []) (text : List β) :
    scan symbol marker words text = text ∨ ∃ front back, front <+: text ∧
      scan symbol marker words text = front ++ (marker ++ back) ∧
      (front = [] → ∃ w ∈ words, w <+: text.map symbol) := by
  induction text with
  | nil => exact .inl rfl
  | cons first rest ih =>
    cases found : words.find? (fun w => w.isPrefixOf ((first :: rest).map symbol)) with
    | some w =>
      have member := List.mem_of_find?_eq_some found
      exact .inr ⟨[], _, List.nil_prefix, scan_word (List.cons_ne_nil _ _) found
        (some_words w member), fun _ => ⟨w, member, by simpa using List.find?_some found⟩⟩
    | none =>
      have plain : scan symbol marker words (first :: rest) =
          first :: scan symbol marker words rest := scan_plain (fun w member => by
        simpa using List.find?_eq_none.mp found w member)
      rcases ih with same | ⟨front, back, begins, same, -⟩
      · exact .inl (by rw [plain, same])
      · exact .inr ⟨first :: front, back, (List.prefix_cons_inj first).mpr begins,
          by rw [plain, same, List.cons_append], fun none_there => by cases none_there⟩

/-! One word at a time. -/

section Passes
variable {v : List α} (some_word : v ≠ []) (neutral : Neutral (marker.map symbol) v)
include some_word neutral

/-- A marker stays as it is, and the text behind it is scanned as if it stood alone. -/
theorem scan_marker (text : List β) :
    scan symbol marker [v] (marker ++ text) = marker ++ scan symbol marker [v] text := by
  by_cases same : v = marker.map symbol
  · have here : v <+: (marker ++ text).map symbol := by
      rw [List.map_append, ← same]
      exact List.prefix_append _ _
    have some_text : marker ++ text ≠ [] := by
      intro none_there
      rw [(List.append_eq_nil_iff.mp none_there).1] at same
      exact some_word same
    rw [scan_word some_text (by simpa using here) some_word, same, List.length_map,
      List.drop_left]
  · refine scan_skips marker text (fun a b split some_b w member found => ?_)
    obtain rfl := List.mem_singleton.mp member
    have halves : marker.map symbol = a.map symbol ++ b.map symbol := by
      rw [split, List.map_append]
    exact neutral.skips some_word halves (by simpa using some_b) (fun other => absurd other same)
      found

/-- A text before a marker is scanned as if it stood alone. -/
theorem scan_gap (some_marker : marker ≠ []) (front text : List β) :
    scan symbol marker [v] (front ++ (marker ++ text)) =
      scan symbol marker [v] front ++ (marker ++ scan symbol marker [v] text) := by
  induction size : front.length using Nat.strong_induction_on generalizing front with
  | _ n ih =>
    subst size
    cases front with
    | nil => exact scan_marker some_word neutral text
    | cons first rest =>
      have stops (found : v <+: (first :: rest ++ (marker ++ text)).map symbol) :
          v <+: (first :: rest).map symbol := by
        rw [List.map_append, List.map_append] at found
        exact neutral.stops (by simpa using some_marker) (List.cons_ne_nil _ _) found
      by_cases begins : v <+: (first :: rest).map symbol
      · have positive := List.length_pos_iff.mpr some_word
        have bound := begins.length_le
        rw [List.length_map] at bound
        have whole : v <+: (first :: rest ++ (marker ++ text)).map symbol := begins.trans (by
          rw [List.map_append]
          exact List.prefix_append _ _)
        rw [scan_word (List.cons_ne_nil _ _) (by simpa using begins) some_word,
          scan_word (List.append_ne_nil_of_left_ne_nil (List.cons_ne_nil _ _) _)
            (by simpa using whole) some_word, List.drop_append_of_le_length bound,
          ih _ (by rw [List.length_drop, List.length_cons]; omega) _ rfl, List.append_assoc]
      · rw [List.cons_append, scan_plain, scan_plain (by simpa using begins), List.cons_append,
          ih rest.length (by simp) rest rfl]
        intro w member found
        obtain rfl := List.mem_singleton.mp member
        exact begins (stops found)

end Passes

variable (symbol marker) in
/-- The words are replaced one after the other. -/
def passes (order : List (List α)) (text : List β) : List β :=
  order.foldl (fun text w => scan symbol marker [w] text) text

/-- What passes leave was there before or belongs to a marker. -/
theorem mem_passes {order : List (List α)} {text : List β} {e : β}
    (member : e ∈ passes symbol marker order text) : e ∈ marker ∨ e ∈ text := by
  induction order generalizing text with
  | nil => exact .inr member
  | cons w rest ih =>
    rcases ih member with inside | before
    · exact .inl inside
    · exact mem_scan before

theorem map_passes {γ : Type} (f : β → γ) {letter : γ → α} (same : ∀ e, letter (f e) = symbol e)
    (order : List (List α)) (text : List β) :
    (passes symbol marker order text).map f =
      passes letter (marker.map f) order (text.map f) := by
  induction order generalizing text with
  | nil => rfl
  | cons w rest ih =>
    rw [passes, List.foldl_cons, ← passes, ih, map_scan f same]
    rfl

/-- A text without a word stays. -/
theorem scan_absent {words : List (List α)} {text : List β}
    (absent : ∀ w ∈ words, ¬ w <:+: text.map symbol) : scan symbol marker words text = text := by
  induction text with
  | nil => rfl
  | cons first rest ih =>
    rw [scan_plain (fun w member found => absent w member found.isInfix), ih]
    intro w member found
    exact absent w member (found.trans (List.suffix_cons _ _).isInfix)

theorem passes_absent {order : List (List α)} {text : List β}
    (absent : ∀ w ∈ order, ¬ w <:+: text.map symbol) :
    passes symbol marker order text = text := by
  induction order with
  | nil => rfl
  | cons w rest ih =>
    rw [passes, List.foldl_cons, ← passes, scan_absent]
    · exact ih (fun v member => absent v (List.mem_cons_of_mem w member))
    · intro v member
      rw [List.mem_singleton.mp member]
      exact absent w List.mem_cons_self

/-- What comes before a marker and what comes after it go through the passes apart. -/
theorem passes_gap {order : List (List α)} (some_words : ∀ w ∈ order, w ≠ [])
    (neutral : ∀ w ∈ order, Neutral (marker.map symbol) w) (some_marker : marker ≠ [])
    (front text : List β) :
    passes symbol marker order (front ++ (marker ++ text)) =
      passes symbol marker order front ++ (marker ++ passes symbol marker order text) := by
  induction order generalizing front text with
  | nil => rfl
  | cons w rest ih =>
    have apart : scan symbol marker [w] (front ++ (marker ++ text)) =
        scan symbol marker [w] front ++ (marker ++ scan symbol marker [w] text) :=
      scan_gap (some_words w List.mem_cons_self) (neutral w List.mem_cons_self) some_marker front
        text
    simp only [passes, List.foldl_cons, apart]
    exact ih (fun v member => some_words v (List.mem_cons_of_mem w member))
      (fun v member => neutral v (List.mem_cons_of_mem w member)) _ _

end Scan

/-! Words that meet one another can still stand apart in one text. -/

/-- Two occurrences of words in the text are the same one or have no symbol in common. -/
def Spaced (words : List (List α)) (text : List α) : Prop :=
  ∀ u ∈ words, ∀ w ∈ words, ∀ before after before' after',
    text = before ++ (u ++ after) → text = before' ++ (w ++ after') →
      (before = before' ∧ u = w) ∨ before.length + u.length ≤ before'.length ∨
        before'.length + w.length ≤ before.length

omit [DecidableEq α] in
theorem Spaced.mono {words more : List (List α)} {text : List α} (spaced : Spaced more text)
    (sub : ∀ w ∈ words, w ∈ more) : Spaced words text :=
  fun u first w second => spaced u (sub u first) w (sub w second)

omit [DecidableEq α] in
theorem Spaced.part {words : List (List α)} {part text : List α} (spaced : Spaced words text)
    (inside : part <:+: text) : Spaced words part := by
  obtain ⟨x, z, rfl⟩ := inside
  intro u first w second before after before' after' here there
  have longer {w a b : List α} (split : part = a ++ (w ++ b)) :
      x ++ part ++ z = x ++ a ++ (w ++ (b ++ z)) := by simp [split]
  rcases spaced u first w second _ _ _ _ (longer here) (longer there) with ⟨same, equal⟩ | apart
  · exact .inl ⟨List.append_cancel_left same, equal⟩
  · simp only [List.length_append] at apart
    exact .inr (by omega)

omit [DecidableEq α] in
/-- What stands before an occurrence and what stands after it. -/
theorem Spaced.around {words : List (List α)} {symbol : β → α} {front word back : List β}
    (spaced : Spaced words ((front ++ (word ++ back)).map symbol)) :
    Spaced words (front.map symbol) ∧ Spaced words (back.map symbol) :=
  ⟨spaced.part ⟨[], (word ++ back).map symbol, by simp⟩,
    spaced.part ⟨(front ++ word).map symbol, [], by simp⟩⟩

omit [DecidableEq α] in
/-- Words that do not meet one another stand apart in every text. -/
theorem Solid.spaced {words : List (List α)} (solid : Solid words) (text : List α) :
    Spaced words text := by
  -- Of two occurrences at different places, the first one ends before the other begins.
  have ends {u w a b c d : List α} (first : u ∈ words) (second : w ∈ words)
      (same : a ++ (u ++ b) = c ++ (w ++ d)) (sooner : a.length < c.length) :
      a.length + u.length ≤ c.length := by
    rcases List.append_eq_append_iff.mp same with ⟨gap, split, rest⟩ | ⟨gap, split, rest⟩
    · have lengths := congrArg List.length split
      rw [List.length_append] at lengths
      have some_gap : gap ≠ [] := by
        rintro rfl
        rw [List.length_nil] at lengths
        omega
      have inside := solid.stops first second some_gap (List.prefix_append w d)
        (rest ▸ List.prefix_append u b)
      have bound := inside.length_le
      omega
    · have lengths := congrArg List.length split
      rw [List.length_append] at lengths
      omega
  intro u first w second before after before' after' here there
  have same := here.symm.trans there
  rcases lt_trichotomy before.length before'.length with sooner | equal | later
  · exact .inr (.inl (ends first second same sooner))
  · obtain ⟨rfl, rest⟩ := List.append_inj same equal
    exact .inl ⟨rfl, solid.unique first second (List.prefix_append u after)
      (rest ▸ List.prefix_append w after')⟩
  · exact .inr (.inr (ends second first same.symm later))

omit [DecidableEq α] in
/-- Of two occurrences one is the other, or it ends before the other begins. -/
theorem Spaced.cases {words : List (List α)} {symbol : β → α} {text front word back f v b : List β}
    (spaced : Spaced words (text.map symbol)) (first : word.map symbol ∈ words)
    (second : v.map symbol ∈ words) (here : text = front ++ (word ++ back))
    (there : text = f ++ (v ++ b)) :
    (front = f ∧ word = v ∧ back = b) ∨
      (∃ gap, f = front ++ (word ++ gap) ∧ back = gap ++ (v ++ b)) ∨
      (∃ gap, front = f ++ (v ++ gap) ∧ b = gap ++ (word ++ back)) := by
  have apart := spaced _ first _ second (front.map symbol) (back.map symbol) (f.map symbol)
    (b.map symbol) (by simp [here]) (by simp [there])
  simp only [List.length_map] at apart
  -- What ends before the other begins leaves a gap.
  have between {a u c d w e : List β} (same : a ++ (u ++ c) = d ++ (w ++ e))
      (short : a.length + u.length ≤ d.length) :
      ∃ gap, d = a ++ (u ++ gap) ∧ c = gap ++ (w ++ e) := by
    rw [← List.append_assoc] at same
    rcases List.append_eq_append_iff.mp same with ⟨gap, split, rest⟩ | ⟨gap, split, rest⟩
    · exact ⟨gap, by rw [split, List.append_assoc], rest⟩
    · have lengths := congrArg List.length split
      simp only [List.length_append] at lengths
      obtain rfl : gap = [] := List.length_eq_zero_iff.mp (by omega)
      exact ⟨[], by simpa using split.symm, by simpa using rest.symm⟩
  rcases apart with ⟨begins, equal⟩ | short | short
  · have lengths := congrArg List.length begins
    have same : front ++ (word ++ back) = f ++ (v ++ b) := here.symm.trans there
    obtain ⟨rfl, rest⟩ := List.append_inj same (by simpa using lengths)
    have lengths' := congrArg List.length equal
    obtain ⟨rfl, rfl⟩ := List.append_inj rest (by simpa using lengths')
    exact .inl ⟨rfl, rfl, rfl⟩
  · exact .inr (.inl (between (here.symm.trans there) short))
  · exact .inr (.inr (between (there.symm.trans here) short))

omit [DecidableEq α] in
theorem exists_occurrence {symbol : β → α} {w : List α} {text : List β}
    (inside : w <:+: text.map symbol) :
    ∃ front word back, text = front ++ (word ++ back) ∧ word.map symbol = w := by
  obtain ⟨before, after, split⟩ := inside
  rw [List.append_assoc] at split
  obtain ⟨front, rest, rfl, -, later⟩ := List.map_eq_append_iff.mp split.symm
  obtain ⟨word, back, rfl, whole, -⟩ := List.map_eq_append_iff.mp later
  exact ⟨front, word, back, rfl, whole⟩

section Scan
variable {symbol : β → α} {marker : List β}

/-- An occurrence that no other one meets is replaced, and what stands around it is scanned as if it stood alone. -/
theorem scan_spaced {front word back : List β} (some_word : word ≠ [])
    (spaced : Spaced [word.map symbol] ((front ++ (word ++ back)).map symbol)) :
    scan symbol marker [word.map symbol] (front ++ (word ++ back)) =
      scan symbol marker [word.map symbol] front ++
        (marker ++ scan symbol marker [word.map symbol] back) := by
  have listed : word.map symbol ∈ [word.map symbol] := List.mem_singleton_self _
  have some_symbols : word.map symbol ≠ [] := by simpa using some_word
  have replaced {other : List β} (same : other.map symbol = word.map symbol) (text : List β) :
      scan symbol marker [word.map symbol] (other ++ text) =
        marker ++ scan symbol marker [word.map symbol] text := by
    have some_other : other ≠ [] := fun none_there => some_symbols (by rw [← same, none_there]; rfl)
    rw [scan_word (List.append_ne_nil_of_left_ne_nil some_other _) (by simp [same]) some_symbols,
      List.drop_left' (by simpa using congrArg List.length same)]
  induction size : front.length using Nat.strong_induction_on generalizing front with
  | _ n ih =>
    subst size
    cases front with
    | nil => exact replaced rfl back
    | cons first rest =>
      by_cases found : word.map symbol <+: ((first :: rest) ++ (word ++ back)).map symbol
      · -- The occurrence at the beginning ends before the given one.
        obtain ⟨other, more, split, same⟩ : ∃ other more,
            (first :: rest) ++ (word ++ back) = other ++ more ∧ other.map symbol = word.map symbol := by
          obtain ⟨after, split⟩ := found
          obtain ⟨other, more, parts, whole, -⟩ := List.map_eq_append_iff.mp split.symm
          exact ⟨other, more, parts, whole⟩
        have some_other : other ≠ [] := fun none_there =>
          some_symbols (by rw [← same, none_there]; rfl)
        have positive := List.length_pos_iff.mpr some_other
        rcases spaced.cases listed (by rw [same]; exact listed) rfl
            (show _ = [] ++ (other ++ more) from split) with
          ⟨none_there, -, -⟩ | ⟨gap, none_there, -⟩ | ⟨gap, begins, rest_eq⟩
        · cases none_there
        · cases none_there
        · rw [List.nil_append] at begins
          have shorter : gap.length < (first :: rest).length := by
            rw [begins, List.length_append]
            omega
          have behind : (gap ++ (word ++ back)).map symbol <:+:
              (first :: rest ++ (word ++ back)).map symbol := ⟨other.map symbol, [], by simp [begins]⟩
          rw [begins, List.append_assoc, replaced same, replaced same,
            ih _ shorter (spaced.part behind) rfl, List.append_assoc]
      · have later : ¬ word.map symbol <+: (first :: rest).map symbol := fun inside =>
          found (inside.trans (by rw [List.map_append]; exact List.prefix_append _ _))
        rw [List.cons_append, scan_plain (by simpa using found), scan_plain (by simpa using later),
          ih rest.length (by simp) (spaced.part (List.suffix_cons _ _).isInfix) rfl,
          List.cons_append]

section Order
variable {order : List (List α)}

/-- The first pass replaces its word everywhere, and a marker keeps the later passes apart. -/
theorem passes_first {front word back : List β}
    (some_words : ∀ w ∈ word.map symbol :: order, w ≠ [])
    (neutral : ∀ w ∈ word.map symbol :: order, Neutral (marker.map symbol) w)
    (some_marker : marker ≠ [])
    (spaced : Spaced (word.map symbol :: order) ((front ++ (word ++ back)).map symbol)) :
    passes symbol marker (word.map symbol :: order) (front ++ (word ++ back)) =
      passes symbol marker (word.map symbol :: order) front ++
        (marker ++ passes symbol marker (word.map symbol :: order) back) := by
  have some_word : word ≠ [] := by simpa using some_words _ List.mem_cons_self
  have single : Spaced [word.map symbol] ((front ++ (word ++ back)).map symbol) :=
    spaced.mono (fun w member => List.mem_singleton.mp member ▸ List.mem_cons_self)
  simp only [passes, List.foldl_cons, scan_spaced some_word single]
  exact passes_gap (fun w member => some_words w (List.mem_cons_of_mem _ member))
    (fun w member => neutral w (List.mem_cons_of_mem _ member)) some_marker _ _

/-- A word that is not there needs no pass. -/
theorem passes_skip {v : List α} {text : List β} (absent : ¬ v <:+: text.map symbol) :
    passes symbol marker (v :: order) text = passes symbol marker order text := by
  rw [passes, List.foldl_cons, scan_absent (fun w member => by
    rwa [List.mem_singleton.mp member]), ← passes]

variable (some_words : ∀ w ∈ order, w ≠ [])
  (neutral : ∀ w ∈ order, Neutral (marker.map symbol) w) (some_marker : marker ≠ [])
include some_words neutral some_marker

/-- Every occurrence is replaced, and what stands around it goes through the passes as if it stood alone. -/
theorem passes_spaced {front word back : List β} (member : word.map symbol ∈ order)
    (spaced : Spaced order ((front ++ (word ++ back)).map symbol)) :
    passes symbol marker order (front ++ (word ++ back)) =
      passes symbol marker order front ++ (marker ++ passes symbol marker order back) := by
  induction order generalizing front word back with
  | nil => cases member
  | cons v order ih =>
    induction size : (front ++ (word ++ back)).length using Nat.strong_induction_on
      generalizing front word back with
    | _ n shorter =>
      subst size
      by_cases there : v <:+: (front ++ (word ++ back)).map symbol
      · obtain ⟨f, u, b, split, rfl⟩ := exists_occurrence there
        have some_u := List.length_pos_iff.mpr (some_words _ List.mem_cons_self)
        rw [List.length_map] at some_u
        rcases spaced.cases member List.mem_cons_self rfl split with
          ⟨rfl, rfl, rfl⟩ | ⟨gap, rfl, rfl⟩ | ⟨gap, rfl, rfl⟩
        · exact passes_first some_words neutral some_marker spaced
        · -- The occurrence of the first word stands behind the given one.
          obtain ⟨before, -⟩ := (split ▸ spaced).around
          rw [split, passes_first some_words neutral some_marker (split ▸ spaced),
            shorter _ ?_ member before rfl,
            passes_first some_words neutral some_marker spaced.around.2]
          · simp only [List.append_assoc]
          · simp only [List.length_append]
            omega
        · obtain ⟨-, behind⟩ := (split ▸ spaced).around
          rw [split, passes_first some_words neutral some_marker (split ▸ spaced),
            shorter _ ?_ member behind rfl,
            passes_first some_words neutral some_marker spaced.around.1]
          · simp only [List.append_assoc]
          · simp only [List.length_append]
            omega
      · have later : word.map symbol ∈ order := by
          refine (List.mem_cons.mp member).resolve_left fun same => there ?_
          rw [← same]
          exact ⟨front.map symbol, back.map symbol, by simp⟩
        have before : ¬ v <:+: front.map symbol := fun inside => there
          (inside.trans ⟨[], (word ++ back).map symbol, by simp⟩)
        have behind : ¬ v <:+: back.map symbol := fun inside => there
          (inside.trans ⟨(front ++ word).map symbol, [], by simp⟩)
        rw [passes_skip there, passes_skip before, passes_skip behind,
          ih (fun w member => some_words w (List.mem_cons_of_mem v member))
            (fun w member => neutral w (List.mem_cons_of_mem v member)) later
            (spaced.mono (fun w => List.mem_cons_of_mem v))]

/-- The result does not depend on the order of the words. -/
theorem passes_congr {other : List (List α)} (same : ∀ w, w ∈ order ↔ w ∈ other) {text : List β}
    (spaced : Spaced order (text.map symbol)) :
    passes symbol marker order text = passes symbol marker other text := by
  induction size : text.length using Nat.strong_induction_on generalizing text with
  | _ n ih =>
    subst size
    by_cases there : ∃ w ∈ order, w <:+: text.map symbol
    · obtain ⟨_, member, inside⟩ := there
      obtain ⟨front, word, back, rfl, rfl⟩ := exists_occurrence inside
      have positive := List.length_pos_iff.mpr (some_words _ member)
      rw [List.length_map] at positive
      have among := spaced.mono (fun w => (same w).mpr)
      obtain ⟨before, behind⟩ := spaced.around
      rw [passes_spaced some_words neutral some_marker member spaced,
        passes_spaced (fun w there => some_words w ((same w).mpr there))
          (fun w there => neutral w ((same w).mpr there)) some_marker ((same _).mp member) among,
        ih _ (by simp only [List.length_append]; omega) before rfl,
        ih _ (by simp only [List.length_append]; omega) behind rfl]
    · push Not at there
      rw [passes_absent there, passes_absent (fun w member => there w ((same w).mpr member))]

end Order

end Scan

end Substitution
