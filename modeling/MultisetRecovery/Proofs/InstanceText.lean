import Mathlib.Data.List.TakeWhile
import MultisetRecovery.Instance.Basic
import MultisetRecovery.Instance.Text
import MultisetRecovery.Proofs.Request

/-!
# The text of an instance reads back

The values of a text do not depend on its layout: on what ends its lines, on white space around the
values, and on blank lines and comments between them (`parse_layout`). A carriage return and a line
feed that come together end one line, even where they are meant to end two; the line that is lost
then is blank. Numbers in hexadecimal digits are such values, so the written form of an instance is
read as the digits of its numbers.
-/

namespace MultisetRecovery

namespace Text

/-! ## Lines -/

theorem lines_cons_of_end {c : Char} {cs : List Char} (hc : isLineEnd c = true)
    (hpair : c = '\r' → cs.head? ≠ some '\n') : lines (c :: cs) = [] :: lines cs := by
  rw [lines, if_pos hc]
  rintro cs' rfl rfl
  exact hpair rfl rfl

theorem lines_cons_of_not_end {c : Char} {cs : List Char} (hc : isLineEnd c = false) :
    lines (c :: cs) =
      match lines cs with
      | [] => [[c]]
      | l :: ls => (c :: l) :: ls := by
  have hpair : ∀ cs', c = '\r' → cs = '\n' :: cs' → False := by
    rintro cs' rfl -
    exact absurd hc (by decide)
  exact (lines.eq_3 c cs hpair).trans (if_neg (ne_true_of_eq_false hc))

/-- Characters that end no line come to stand on the first line. -/
theorem lines_append {l : List Char} (hl : ∀ c ∈ l, isLineEnd c = false) {cs : List Char}
    {ls : List (List Char)} (h : lines cs = [] :: ls) : lines (l ++ cs) = l :: ls := by
  induction l with
  | nil => exact h
  | cons d ds ih =>
    rw [List.forall_mem_cons] at hl
    rw [List.cons_append, lines_cons_of_not_end hl.1, ih hl.2]

theorem lines_of_no_end {l : List Char} (hne : l ≠ []) (hl : ∀ c ∈ l, isLineEnd c = false) :
    lines l = [l] := by
  induction l with
  | nil => exact absurd rfl hne
  | cons d ds ih =>
    rw [List.forall_mem_cons] at hl
    rw [lines_cons_of_not_end hl.1]
    cases ds with
    | nil => rfl
    | cons e es => rw [ih (List.cons_ne_nil e es) hl.2]

/-- The first of several lines that are written one after the other. -/
theorem toList_join_lines (v : String) (vs : List String) :
    (String.join ((v :: vs).map fun v => v ++ "\n")).toList =
      v.toList ++ ['\n'] ++ (String.join (vs.map fun v => v ++ "\n")).toList := by
  rw [List.map_cons, String.join_cons, String.toList_append, String.toList_append]
  rfl

/-- Texts that end no line are read back as the lines that they are written to. -/
theorem lines_join {vs : List String} (h : ∀ v ∈ vs, ∀ c ∈ v.toList, isLineEnd c = false) :
    lines (String.join (vs.map fun v => v ++ "\n")).toList = vs.map String.toList := by
  induction vs with
  | nil => rfl
  | cons v vs ih =>
    rw [List.forall_mem_cons] at h
    rw [toList_join_lines, List.append_assoc, List.singleton_append,
      lines_append h.1 (lines_cons_of_end (by decide) fun h => absurd h (by decide)), ih h.2,
      List.map_cons]

/-! ## White space -/

theorem stripBy_eq_self {p : Char → Bool} {cs : List Char} (h : ∀ c ∈ cs, p c = false) :
    stripBy p cs = cs := by
  have hdrop : ∀ ds : List Char, (∀ c ∈ ds, c ∈ cs) → ds.dropWhile p = ds := by
    intro ds hds
    rw [List.dropWhile_eq_self_iff]
    intro hpos
    rw [h _ (hds _ (List.getElem_mem hpos))]
    exact Bool.false_ne_true
  rw [stripBy, hdrop cs fun c hc => hc, hdrop cs.reverse fun c hc => List.mem_reverse.mp hc,
    List.reverse_reverse]

theorem stripBy_append_left {p : Char → Bool} {l : List Char} (hl : ∀ c ∈ l, p c = true)
    (cs : List Char) : stripBy p (l ++ cs) = stripBy p cs := by
  rw [stripBy, List.dropWhile_append_of_pos hl, stripBy]

theorem stripBy_append_right {p : Char → Bool} {r : List Char} (hr : ∀ c ∈ r, p c = true)
    (cs : List Char) : stripBy p (cs ++ r) = stripBy p cs := by
  have hnil : r.dropWhile p = [] := List.dropWhile_eq_nil_iff.mpr hr
  have hreverse : ∀ c ∈ r.reverse, p c = true := fun c hc => hr c (List.mem_reverse.mp hc)
  rw [stripBy, List.dropWhile_append, stripBy]
  cases hdrop : cs.dropWhile p with
  | nil => rw [List.isEmpty_nil, if_pos rfl, hnil]
  | cons d ds =>
    rw [List.isEmpty_cons, if_neg Bool.false_ne_true, List.reverse_append,
      List.dropWhile_append_of_pos hreverse]

theorem stripBy_eq_nil {p : Char → Bool} {cs : List Char} (h : ∀ c ∈ cs, p c = true) :
    stripBy p cs = [] := by
  rw [stripBy, List.dropWhile_eq_nil_iff.mpr h, List.reverse_nil, List.dropWhile_nil,
    List.reverse_nil]

/-- A character that is not of the class stays in front of what follows it. -/
theorem head?_stripBy_cons {p : Char → Bool} {c : Char} (hc : p c = false) (cs : List Char) :
    (stripBy p (c :: cs)).head? = some c := by
  rw [stripBy, List.dropWhile_cons_of_neg (by simp [hc]), List.reverse_cons, List.dropWhile_append]
  split
  · rw [List.dropWhile_cons_of_neg (by simp [hc])]
    rfl
  · rw [List.reverse_append]
    rfl

end Text

namespace InstanceText

/-! ## Values -/

/-- A value that stands for itself on a line. -/
structure IsValue (cs : List Char) : Prop where
  ne_nil : cs ≠ []
  unblank : ∀ c ∈ cs, Text.isBlank c = false
  uncommented : isComment cs = false

/-- The value on a line, if there is one. -/
def valueOn (line : List Char) : List (List Char) :=
  [Text.strip line].filter fun v => !v.isEmpty && !isComment v

theorem values_eq_flatMap (text : List Char) : values text = (Text.lines text).flatMap valueOn := by
  rw [values]
  induction Text.lines text with
  | nil => rfl
  | cons l ls ih =>
    rw [List.map_cons, ← List.singleton_append, List.filter_append, ih, List.flatMap_cons]
    rfl

theorem valueOn_of_isValue {l v r : List Char} (hl : ∀ c ∈ l, Text.isBlank c = true)
    (hv : IsValue v) (hr : ∀ c ∈ r, Text.isBlank c = true) : valueOn (l ++ v ++ r) = [v] := by
  rw [valueOn, Text.strip, Text.stripBy_append_right hr, Text.stripBy_append_left hl,
    Text.stripBy_eq_self hv.unblank, List.filter_eq_self]
  simp [hv.ne_nil, hv.uncommented]

theorem valueOn_of_blank {l : List Char} (hl : ∀ c ∈ l, Text.isBlank c = true) :
    valueOn l = [] := by
  rw [valueOn, Text.strip, Text.stripBy_eq_nil hl]
  rfl

theorem valueOn_of_comment {l : List Char} (hl : ∀ c ∈ l, Text.isBlank c = true)
    (rest : List Char) : valueOn (l ++ '#' :: rest) = [] := by
  have hcomment : isComment (Text.strip ('#' :: rest)) = true := by
    rw [isComment, Text.strip, Text.head?_stripBy_cons (by decide)]
    rfl
  rw [Text.strip] at hcomment
  rw [valueOn, Text.strip, Text.stripBy_append_left hl, List.filter_eq_nil_iff]
  simp [hcomment]

/-! ## Layout -/

/-- A line, and the value that is written on it if there is one. -/
inductive Line : List Char → List (List Char) → Prop where
  | blank {cs : List Char} (h : ∀ c ∈ cs, Text.isBlank c = true) : Line cs []
  | comment {l : List Char} (hl : ∀ c ∈ l, Text.isBlank c = true) (rest : List Char) :
    Line (l ++ '#' :: rest) []
  | value {l v r : List Char} (hl : ∀ c ∈ l, Text.isBlank c = true) (hv : IsValue v)
    (hr : ∀ c ∈ r, Text.isBlank c = true) : Line (l ++ v ++ r) [v]

/-- What a line is ended by. -/
inductive LineEnd : List Char → Prop where
  | single {c : Char} (h : Text.isLineEnd c = true) : LineEnd [c]
  | pair : LineEnd ['\r', '\n']

/-- Values that are written in a text, one to a line and in order. The last line need not be ended,
and may be empty. -/
inductive Layout : List (List Char) → List Char → Prop where
  | last {line : List Char} {vs : List (List Char)} (hline : Line line vs)
    (hends : ∀ c ∈ line, Text.isLineEnd c = false) : Layout vs line
  | line {line ending text : List Char} {vs ws : List (List Char)} (hline : Line line vs)
    (hends : ∀ c ∈ line, Text.isLineEnd c = false) (hending : LineEnd ending)
    (hrest : Layout ws text) : Layout (vs ++ ws) (line ++ ending ++ text)

theorem Line.valueOn_eq {line : List Char} {vs : List (List Char)} (h : Line line vs) :
    valueOn line = vs := by
  cases h with
  | blank h => exact valueOn_of_blank h
  | comment hl rest => exact valueOn_of_comment hl rest
  | value hl hv hr => exact valueOn_of_isValue hl hv hr

theorem values_of_no_end {l : List Char} (hl : ∀ c ∈ l, Text.isLineEnd c = false) :
    values l = valueOn l := by
  by_cases hne : l = []
  · subst hne
    rfl
  · rw [values_eq_flatMap, Text.lines_of_no_end hne hl, List.flatMap_singleton]

theorem values_append_pair {l : List Char} (hl : ∀ c ∈ l, Text.isLineEnd c = false)
    (rest : List Char) : values (l ++ '\r' :: '\n' :: rest) = valueOn l ++ values rest := by
  rw [values_eq_flatMap, Text.lines_append hl rfl, List.flatMap_cons, ← values_eq_flatMap]

theorem values_append_single {l : List Char} (hl : ∀ c ∈ l, Text.isLineEnd c = false) {c : Char}
    (hc : Text.isLineEnd c = true) {rest : List Char}
    (hpair : c = '\r' → rest.head? ≠ some '\n') :
    values (l ++ c :: rest) = valueOn l ++ values rest := by
  rw [values_eq_flatMap, Text.lines_append hl (Text.lines_cons_of_end hc hpair),
    List.flatMap_cons, ← values_eq_flatMap]

/-- The value on the first line comes before those of the rest, whatever the rest begins with. -/
theorem values_append_cons {l : List Char} (hl : ∀ c ∈ l, Text.isLineEnd c = false) {c : Char}
    (hc : Text.isLineEnd c = true) (rest : List Char) :
    values (l ++ c :: rest) = valueOn l ++ values rest := by
  by_cases hpair : c = '\r' ∧ rest.head? = some '\n'
  · -- The line feed is taken for part of this end, and not for the end of an empty line.
    obtain ⟨rfl, hfeed⟩ := hpair
    obtain ⟨rest', rfl⟩ := List.head?_eq_some_iff.mp hfeed
    have hempty : values ([] ++ '\n' :: rest') = valueOn [] ++ values rest' :=
      values_append_single (by simp) (by decide) fun h => absurd h (by decide)
    rw [List.nil_append, valueOn_of_blank (by simp), List.nil_append] at hempty
    rw [values_append_pair hl, hempty]
  · exact values_append_single hl hc fun hreturn hfeed => hpair ⟨hreturn, hfeed⟩

/-- The values of a text are those that are written in it. -/
theorem Layout.values_eq {vs : List (List Char)} {text : List Char} (h : Layout vs text) :
    values text = vs := by
  induction h with
  | last hline hends => rw [values_of_no_end hends, hline.valueOn_eq]
  | line hline hends hending hrest ih =>
    rw [List.append_assoc]
    cases hending with
    | single hc => rw [List.singleton_append, values_append_cons hends hc, hline.valueOn_eq, ih]
    | pair =>
      rw [List.cons_append, List.singleton_append, values_append_pair hends, hline.valueOn_eq, ih]

theorem IsValue.line {v : List Char} (hv : IsValue v) : Line v [v] := by
  have hline : Line ([] ++ v ++ []) [v] := .value (by simp) hv (by simp)
  rwa [List.nil_append, List.append_nil] at hline

theorem IsValue.not_isLineEnd {v : List Char} (hv : IsValue v) :
    ∀ c ∈ v, Text.isLineEnd c = false := by
  intro c hc
  rw [Bool.eq_false_iff]
  intro hend
  exact absurd (Text.isBlank_of_isLineEnd hend) (ne_true_of_eq_false (hv.unblank c hc))

/-- The plainest layout has nothing but the values and a line feed after each. -/
theorem layout_join {vs : List String} (h : ∀ v ∈ vs, IsValue v.toList) :
    Layout (vs.map String.toList) (String.join (vs.map fun v => v ++ "\n")).toList := by
  induction vs with
  | nil => exact .last (.blank (by simp)) (by simp)
  | cons v vs ih =>
    rw [List.forall_mem_cons] at h
    obtain ⟨hv, hvs⟩ := h
    rw [Text.toList_join_lines, List.map_cons, ← List.singleton_append]
    exact .line hv.line hv.not_isLineEnd (.single (by decide)) (ih hvs)

/-- A text has an instance exactly if it has three values at least. -/
theorem parse_cases (text : String) :
    (values text.toList).length < 3 ∧ parse text = .error (values text.toList).length ∨
      3 ≤ (values text.toList).length ∧ ∃ t, parse text = .ok t ∧
        values text.toList = t.modulus.toList :: t.message.toList :: t.sums.map String.toList := by
  unfold parse
  rcases values text.toList with _ | ⟨modulus, _ | ⟨message, _ | ⟨sum, sums⟩⟩⟩
  · exact .inl ⟨by simp, rfl⟩
  · exact .inl ⟨by simp, rfl⟩
  · exact .inl ⟨by simp, rfl⟩
  · exact .inr ⟨by simp, _, rfl, by simp [Function.comp_def]⟩

/-- From three values on, the first is taken for the modulus and the second for the message,
whatever the layout of the text. Fewer are counted. -/
theorem parse_layout {vs : List String} {text : String}
    (h : Layout (vs.map String.toList) text.toList) :
    (∀ modulus message sum sums, vs = modulus :: message :: sum :: sums →
      parse text = .ok ⟨modulus, message, sum :: sums⟩) ∧
    (vs.length < 3 → parse text = .error vs.length) := by
  constructor
  · rintro modulus message sum sums rfl
    rw [parse, h.values_eq]
    simp [Function.comp_def]
  · intro hfew
    rw [parse, h.values_eq]
    match vs, hfew with
    | [], _ => rfl
    | [_], _ => rfl
    | [_, _], _ => rfl

/-- The first line ends with a carriage return and the empty one after it with a line feed, which
together are one end. A line separator and a vertical tab end lines as well. -/
theorem parse_layout_seven :
    let text := String.ofList ['#', ' ', '5', '\r', '\n', ' ', '7', '\t', '\u2028', '1', '\r', '\n',
      '\u00a0', '4', '\x0b', '\t', '#', '2', '\r', '3']
    Layout (["7", "1", "4", "3"].map String.toList) text.toList ∧
      parse text = .ok ⟨"7", "1", ["4", "3"]⟩ ∧
      Layout (["3"].map String.toList) "3".toList ∧ parse "3" = .error 1 := by
  intro text
  have hvalue : ∀ c, Text.isBlank c = false → isComment [c] = false → IsValue [c] := by
    intro c hblank hcomment
    exact ⟨List.cons_ne_nil c [], by simpa using hblank, hcomment⟩
  have hblank : ∀ l : List Char, l.all Text.isBlank = true → ∀ c ∈ l, Text.isBlank c = true :=
    fun l => List.all_eq_true.mp
  have hends : ∀ l : List Char, l.all (!Text.isLineEnd ·) = true →
      ∀ c ∈ l, Text.isLineEnd c = false := by
    intro l hl c hc
    simpa using List.all_eq_true.mp hl c hc
  have hthree : Layout (["3"].map String.toList) "3".toList :=
    .last (hvalue '3' rfl rfl).line (hends _ rfl)
  have hlast := Layout.line (.comment (hblank ['\t'] rfl) ['2']) (hends _ rfl)
    (.single (show Text.isLineEnd '\r' = true from rfl)) hthree
  have hfour := Layout.line
    (.value (hblank ['\u00a0'] rfl) (hvalue '4' rfl rfl) (hblank [] rfl)) (hends _ rfl)
    (.single (show Text.isLineEnd '\x0b' = true from rfl)) hlast
  have hone := Layout.line (hvalue '1' rfl rfl).line (hends _ rfl) .pair hfour
  have hseven := Layout.line
    (.value (hblank [' '] rfl) (hvalue '7' rfl rfl) (hblank ['\t'] rfl)) (hends _ rfl)
    (.single (show Text.isLineEnd '\u2028' = true from rfl)) hone
  have hempty := Layout.line (.blank (hblank [] rfl)) (hends _ rfl)
    (.single (show Text.isLineEnd '\n' = true from rfl)) hseven
  have hfive := Layout.line (.comment (hblank [] rfl) [' ', '5']) (hends _ rfl)
    (.single (show Text.isLineEnd '\r' = true from rfl)) hempty
  have hlayout : Layout (["7", "1", "4", "3"].map String.toList) text.toList := by
    rw [String.toList_ofList]
    exact hfive
  obtain ⟨hparse, -⟩ := parse_layout hlayout
  obtain ⟨-, hfew⟩ := parse_layout hthree
  exact ⟨hlayout, hparse "7" "1" "4" ["3"] rfl, hthree, hfew (by decide)⟩

theorem isValue_encodeInt (v : ℤ) : IsValue (Hex.encodeInt v).toList := by
  have hdigits : ∀ c ∈ Hex.digits v.natAbs, Text.isBlank c = false ∧ c ≠ '#' :=
    Hex.forall_mem_digits (by decide) v.natAbs
  have hne := Hex.digits_ne_nil v.natAbs
  unfold Hex.encodeInt
  split
  · rw [String.toList_append, Hex.toList_encode]
    refine ⟨List.cons_ne_nil _ _, ?_, rfl⟩
    rw [List.forall_mem_append]
    refine ⟨fun c hc => ?_, fun c hc => (hdigits c hc).1⟩
    obtain rfl : c = '-' := by simpa using hc
    rfl
  · rw [Hex.toList_encode]
    refine ⟨hne, fun c hc => (hdigits c hc).1, ?_⟩
    rw [isComment, List.head?_eq_some_head hne, decide_eq_false_iff_not, Option.some.injEq]
    exact (hdigits _ (List.head_mem hne)).2

end InstanceText

/-- The written form of an instance is read as the digits of its numbers. -/
theorem Instance.parse_text {i : Instance} (hsums : i.sums ≠ []) :
    InstanceText.parse i.text =
      .ok ⟨Hex.encodeInt i.modulus, Hex.encodeInt i.message, i.sums.map Hex.encodeInt⟩ := by
  have hlines : i.text = String.join
      (((i.modulus :: i.message :: i.sums).map Hex.encodeInt).map fun v => v ++ "\n") := by
    rw [text, List.map_map]
    rfl
  have hvalues : InstanceText.values i.text.toList =
      ((i.modulus :: i.message :: i.sums).map Hex.encodeInt).map String.toList := by
    rw [hlines]
    refine (InstanceText.layout_join fun v hv => ?_).values_eq
    obtain ⟨n, -, rfl⟩ := List.mem_map.mp hv
    exact InstanceText.isValue_encodeInt n
  obtain ⟨sum, sums, hcons⟩ := List.exists_cons_of_ne_nil hsums
  rw [InstanceText.parse, hvalues, hcons]
  simp [String.ofList_toList, Function.comp_def]

end MultisetRecovery
