import SchemaGraph.Proofs.Chain.Reading

/-! # Attempts of the grammar

The grammar of chains as rules that are attempted one after another. A choice goes back to
where it began when its first pattern fails, and every place at which a rule is attempted in
vain is noted. The reader never goes back; still, it gets stuck at the furthest of these places.
-/

namespace SchemaGraph.Chain

/-- What comes of an attempt at a text: what is left behind the match, if there is one, and what
    was left wherever a rule was attempted in vain. -/
structure Attempt where
  rest? : Option (List Char)
  failed : List (List Char) := []
  deriving Repr, DecidableEq

namespace Attempt

/-- The attempt, made when rules had been attempted in vain before. -/
def after (failed : List (List Char)) (a : Attempt) : Attempt := ⟨a.rest?, failed ++ a.failed⟩

/-- Go on behind a match. -/
def andThen (a : Attempt) (next : List Char → Attempt) : Attempt :=
  match a.rest? with
  | some rest => (next rest).after a.failed
  | none => a

/-- What is done instead when there is no match. -/
def orElse (a other : Attempt) : Attempt :=
  match a.rest? with
  | some _ => a
  | none => other.after a.failed

/-- The attempt of a rule at a text. -/
def noted (text : List Char) (a : Attempt) : Attempt :=
  match a.rest? with
  | some _ => a
  | none => ⟨none, text :: a.failed⟩

/-- Attempt again behind each match until there is none. A match of nothing, which no rule of
    chains repeats, is the last one. -/
def repeated (attempt : List Char → Attempt) (text : List Char) : Attempt :=
  match (attempt text).rest? with
  | some rest =>
      if rest.length < text.length then (repeated attempt rest).after (attempt text).failed
      else ⟨some text, (attempt text).failed⟩
  | none => ⟨some text, (attempt text).failed⟩
termination_by text.length

end Attempt

/-- What a rule is made of. -/
inductive Pattern where
  | any
  | char (c : Char)
  | textEnd
  | sequence (first second : Pattern)
  | choice (first second : Pattern)
  | optional (p : Pattern)
  | many (p : Pattern)
  /-- The pattern does not match here. -/
  | absent (p : Pattern)
  | rule (p : Pattern)
  deriving Repr, DecidableEq

/-- Attempt a pattern at the start of a text. What is attempted only to see that it is absent is
    not noted. -/
def Pattern.attempt : Pattern → List Char → Attempt
  | .any, [] => ⟨none, []⟩
  | .any, _ :: rest => ⟨some rest, []⟩
  | .char _, [] => ⟨none, []⟩
  | .char c, d :: rest => if d = c then ⟨some rest, []⟩ else ⟨none, []⟩
  | .textEnd, [] => ⟨some [], []⟩
  | .textEnd, _ :: _ => ⟨none, []⟩
  | .sequence p q, text => (p.attempt text).andThen q.attempt
  | .choice p q, text => (p.attempt text).orElse (q.attempt text)
  | .optional p, text => (p.attempt text).orElse ⟨some text, []⟩
  | .many p, text => Attempt.repeated p.attempt text
  | .absent p, text =>
      match (p.attempt text).rest? with
      | some _ => ⟨none, []⟩
      | none => ⟨some text, []⟩
  | .rule p, text => (p.attempt text).noted text

section

variable (p q : Pattern) (c d : Char) (text rest : List Char)

theorem Pattern.attempt_any : any.attempt (d :: rest) = ⟨some rest, []⟩ := rfl

theorem Pattern.attempt_char :
    (char c).attempt (d :: rest) = if d = c then ⟨some rest, []⟩ else ⟨none, []⟩ := rfl

theorem Pattern.attempt_sequence :
    (sequence p q).attempt text = (p.attempt text).andThen q.attempt := rfl

theorem Pattern.attempt_choice :
    (choice p q).attempt text = (p.attempt text).orElse (q.attempt text) := rfl

theorem Pattern.attempt_optional :
    (optional p).attempt text = (p.attempt text).orElse ⟨some text, []⟩ := rfl

theorem Pattern.attempt_many : (many p).attempt text = Attempt.repeated p.attempt text := rfl

theorem Pattern.attempt_absent : (absent p).attempt text = match (p.attempt text).rest? with
    | some _ => ⟨none, []⟩
    | none => ⟨some text, []⟩ := rfl

theorem Pattern.attempt_rule : (rule p).attempt text = (p.attempt text).noted text := rfl

end

/-! ## The rules of chains -/

namespace Pattern

def separator : Pattern :=
  .choice (.char ':') (.choice (.char '-') (.choice (.char '>') (.choice (.char '<') (.char '*'))))

def nameChar : Pattern := .sequence (.absent separator) .any

def name : Pattern := .rule (.sequence nameChar (.many nameChar))

def wildcard : Pattern := .rule (.char '*')

/-- A label is a name, and fails in the same place as that. -/
def label : Pattern := .rule name

def labelAndColon : Pattern := .sequence label (.char ':')

def nameOrStar : Pattern := .choice wildcard name

def term : Pattern := .rule (.sequence (.optional labelAndColon) nameOrStar)

/-- A mark is not a rule of its own, but each of the three is. -/
def mark : Pattern :=
  .choice (.rule (.char '-')) (.choice (.rule (.char '>')) (.rule (.char '<')))

/-- A mark and the term behind it. -/
def part : Pattern := .sequence mark term

def parts : Pattern := .sequence (.many part) (.rule .textEnd)

def chain : Pattern := .rule (.sequence term parts)

end Pattern

/-! ## Single attempts -/

/-- Whether a character can stand in a name. -/
def isPlain (c : Char) : Bool := decide (c ∉ reserved)

theorem stop_dropWhile (text : List Char) :
    ∀ c ∈ (text.dropWhile isPlain).head?, isPlain c = false := by
  intro c isHead
  have stopped := List.head?_dropWhile_not isPlain text
  rw [Option.mem_def.mp isHead] at stopped
  exact stopped

theorem not_reserved_of_isPlain {c : Char} (plain : isPlain c = true) : c ∉ reserved :=
  of_decide_eq_true plain

theorem exists_plain {text : List Char} (goesOn : ¬ ∀ c ∈ text.head?, isPlain c = false) :
    ∃ c rest, text = c :: rest ∧ isPlain c = true := by
  cases text with
  | nil => simp at goesOn
  | cons c rest => exact ⟨c, rest, rfl, by simpa using goesOn⟩

namespace Attempt

variable {a : Attempt} {text rest : List Char}

theorem andThen_of_match (found : a.rest? = some rest) (next : List Char → Attempt) :
    a.andThen next = (next rest).after a.failed := by
  rw [andThen, found]

theorem andThen_of_none (nothing : a.rest? = none) (next : List Char → Attempt) :
    a.andThen next = a := by
  rw [andThen, nothing]

theorem noted_of_match (found : a.rest? = some rest) (text : List Char) : a.noted text = a := by
  rw [noted, found]

theorem noted_of_none (nothing : a.rest? = none) (text : List Char) :
    a.noted text = a.after [text] := by
  rw [noted, nothing, after, nothing]
  rfl

theorem repeated_of_match {attempt : List Char → Attempt} {failed : List (List Char)}
    (found : attempt text = ⟨some rest, failed⟩) (shorter : rest.length < text.length) :
    repeated attempt text = (repeated attempt rest).after failed := by
  rw [repeated, found]
  exact if_pos shorter

theorem repeated_of_none {attempt : List Char → Attempt} {failed : List (List Char)}
    (nothing : attempt text = ⟨none, failed⟩) : repeated attempt text = ⟨some text, failed⟩ := by
  rw [repeated, nothing]

theorem after_andThen (failed : List (List Char)) (a : Attempt) (next : List Char → Attempt) :
    (a.after failed).andThen next = (a.andThen next).after failed := by
  cases found : a.rest? with
  | none => simp only [andThen, after, found]
  | some rest => simp only [andThen, after, found, List.append_assoc]

end Attempt

namespace Pattern

open Attempt (andThen orElse after noted)

theorem attempt_char_or (c d : Char) (p : Pattern) (rest : List Char) :
    (choice (char c) p).attempt (d :: rest) =
      if d = c then ⟨some rest, []⟩ else p.attempt (d :: rest) := by
  rw [attempt_choice, attempt_char]
  split <;> rfl

theorem attempt_separator (c : Char) (rest : List Char) :
    separator.attempt (c :: rest) = ⟨if c ∈ reserved then some rest else none, []⟩ := by
  simp only [separator, attempt_char_or, attempt_char, reserved, List.mem_cons,
    List.not_mem_nil, or_false]
  split_ifs <;> simp_all

theorem attempt_nameChar_cons (c : Char) (rest : List Char) :
    nameChar.attempt (c :: rest) = ⟨if isPlain c then some rest else none, []⟩ := by
  simp only [nameChar, attempt_sequence, attempt_absent, attempt_separator, isPlain]
  by_cases isReserved : c ∈ reserved
  · simp [isReserved, andThen]
  · simp [isReserved, andThen, after, attempt_any]

theorem attempt_nameChar_nil : nameChar.attempt [] = ⟨none, []⟩ := rfl

theorem attempt_many_nameChar (text : List Char) :
    (many nameChar).attempt text = ⟨some (text.dropWhile isPlain), []⟩ := by
  rw [attempt_many]
  induction text with
  | nil => exact Attempt.repeated_of_none attempt_nameChar_nil
  | cons c rest ih =>
      have here := attempt_nameChar_cons c rest
      rw [List.dropWhile_cons]
      by_cases plain : isPlain c = true
      · rw [if_pos plain] at here ⊢
        rw [Attempt.repeated_of_match here (Nat.lt_succ_self _), ih]
        rfl
      · rw [if_neg plain] at here ⊢
        exact Attempt.repeated_of_none here

/-- A name goes as far as it can. -/
theorem attempt_name_of_plain {c : Char} (plain : isPlain c = true) (rest : List Char) :
    name.attempt (c :: rest) = ⟨some (rest.dropWhile isPlain), []⟩ := by
  rw [name, attempt_rule, attempt_sequence, attempt_nameChar_cons, if_pos plain,
    Attempt.andThen_of_match rfl, attempt_many_nameChar]
  rfl

theorem attempt_name_of_stop {text : List Char} (stop : ∀ c ∈ text.head?, isPlain c = false) :
    name.attempt text = ⟨none, [text]⟩ := by
  have nothing : nameChar.attempt text = ⟨none, []⟩ := by
    cases text with
    | nil => exact attempt_nameChar_nil
    | cons c rest => rw [attempt_nameChar_cons, stop c rfl]; rfl
  rw [name, attempt_rule, attempt_sequence, nothing]
  rfl

theorem attempt_char_of_stop {c : Char} {text : List Char} (stop : text.head? ≠ some c) :
    (char c).attempt text = ⟨none, []⟩ := by
  cases text with
  | nil => rfl
  | cons d rest => rw [attempt_char, if_neg fun same => stop (congrArg some same)]

theorem attempt_wildcard_star (rest : List Char) :
    wildcard.attempt ('*' :: rest) = ⟨some rest, []⟩ :=
  rfl

theorem attempt_wildcard_of_stop {text : List Char} (stop : text.head? ≠ some '*') :
    wildcard.attempt text = ⟨none, [text]⟩ := by
  rw [wildcard, attempt_rule, attempt_char_of_stop stop]
  rfl

theorem attempt_label_of_plain {c : Char} (plain : isPlain c = true) (rest : List Char) :
    label.attempt (c :: rest) = ⟨some (rest.dropWhile isPlain), []⟩ := by
  rw [label, attempt_rule, attempt_name_of_plain plain]
  rfl

theorem attempt_label_of_stop {text : List Char} (stop : ∀ c ∈ text.head?, isPlain c = false) :
    label.attempt text = ⟨none, [text, text]⟩ := by
  rw [label, attempt_rule, attempt_name_of_stop stop]
  rfl

/-- A label and its colon are found where a colon ends the name that a text starts with. -/
theorem attempt_labelAndColon (text : List Char) :
    (∃ c rest more, text = c :: rest ∧ isPlain c = true ∧ rest.dropWhile isPlain = ':' :: more ∧
      labelAndColon.attempt text = ⟨some more, []⟩) ∨
    ∃ failed, labelAndColon.attempt text = ⟨none, failed⟩ ∧ (∀ other ∈ failed, other = text) ∧
      ∀ c ∈ text.head?, isPlain c = true → (text.dropWhile isPlain).head? ≠ some ':' := by
  rw [labelAndColon, attempt_sequence]
  by_cases stop : ∀ c ∈ text.head?, isPlain c = false
  · refine Or.inr ⟨[text, text], ?_, by simp, fun c isHead plain => ?_⟩
    · rw [attempt_label_of_stop stop]
      rfl
    · rw [stop c isHead] at plain
      cases plain
  · obtain ⟨c, rest, rfl, plain⟩ := exists_plain stop
    rw [attempt_label_of_plain plain, Attempt.andThen_of_match rfl, List.dropWhile_cons,
      if_pos plain]
    by_cases colon : (rest.dropWhile isPlain).head? = some ':'
    · obtain ⟨more, behind⟩ := List.head?_eq_some_iff.mp colon
      refine Or.inl ⟨c, rest, more, rfl, plain, behind, ?_⟩
      rw [behind]
      rfl
    · refine Or.inr ⟨[], ?_, by simp, fun _ _ _ => colon⟩
      rw [attempt_char_of_stop colon]
      rfl

/-- One of the marks is found, after others were looked for in vain. -/
theorem attempt_mark_char (marker : Marker) (rest : List Char) :
    ∃ failed, mark.attempt (marker.char :: rest) = ⟨some rest, failed⟩ ∧
      ∀ text ∈ failed, text = marker.char :: rest := by
  cases marker with
  | line => exact ⟨[], rfl, by simp⟩
  | rightHead => exact ⟨['>' :: rest], rfl, by simp [Marker.char]⟩
  | leftHead => exact ⟨['<' :: rest, '<' :: rest], rfl, by simp [Marker.char]⟩

theorem attempt_mark_of_stop {text : List Char}
    (stop : ∀ c ∈ text.head?, Marker.ofChar? c = none) :
    mark.attempt text = ⟨none, [text, text, text]⟩ := by
  have differs (marker : Marker) : (char marker.char).attempt text = ⟨none, []⟩ := by
    refine attempt_char_of_stop fun isMark => ?_
    have noMark := stop marker.char isMark
    rw [Marker.ofChar?_char] at noMark
    cases noMark
  have line := differs .line
  have right := differs .rightHead
  have left := differs .leftHead
  simp only [Marker.char] at line right left
  simp only [mark, attempt_choice, attempt_rule, line, right, left]
  rfl

end Pattern

/-! ## Where the reader gets stuck -/

/-- The reader cannot go on with a text, nor stop in front of it when it is empty. -/
def Scan.Stuck (s : Scan) : List Char → Prop
  | [] => s.finish? = none
  | c :: _ => s.step? c = none

/-- The reader cannot go on with a text within the term at hand. -/
def Stage.Blocks (stage : Stage) (text : List Char) : Prop :=
  ∀ c ∈ text.head?, Marker.ofChar? c = none → ∀ terms markers,
    Scan.step? ⟨terms, markers, stage⟩ c = none

/-- Of the attempts in vain, the furthest were made at a text. -/
structure Furthest (failed : List (List Char)) (text : List Char) : Prop where
  made : text ∈ failed
  within : ∀ other ∈ failed, text.length ≤ other.length

namespace Furthest

variable {failed others : List (List Char)} {text : List Char}

/-- All attempts in vain may have been made at one text. -/
theorem replicate (more : Nat) (text : List Char) :
    Furthest (List.replicate (more + 1) text) text where
  made := List.mem_replicate.mpr ⟨Nat.succ_ne_zero more, rfl⟩
  within _ isOther := le_of_eq (congrArg List.length (List.eq_of_mem_replicate isOther).symm)

theorem append_left (h : Furthest failed text)
    (early : ∀ other ∈ others, text.length ≤ other.length) : Furthest (others ++ failed) text where
  made := List.mem_append_right others h.made
  within := List.forall_mem_append.mpr ⟨early, h.within⟩

theorem append_right (h : Furthest failed text)
    (early : ∀ other ∈ others, text.length ≤ other.length) : Furthest (failed ++ others) text where
  made := List.mem_append_left others h.made
  within := List.forall_mem_append.mpr ⟨h.within, early⟩

end Furthest

/-- A term is attempted in the way in which the reader goes on from a stage. -/
inductive Stage.Follows (before : Stage) (text : List Char) (a : Attempt) : Prop
  | ends (front rest : List Char) {stage : Stage} {term : Term} : text = front ++ rest →
      (∀ terms markers, Scan.behind? ⟨terms, markers, before⟩ front =
        some ⟨terms, markers, stage⟩) →
      stage.Blocks rest → stage.term? = some term → a.rest? = some rest →
      (∀ other ∈ a.failed, rest.length ≤ other.length) → Follows before text a
  | stuck (front rest : List Char) {stage : Stage} : text = front ++ rest →
      (∀ terms markers, Scan.behind? ⟨terms, markers, before⟩ front =
        some ⟨terms, markers, stage⟩) →
      stage.Blocks rest → stage.term? = none → a.rest? = none → Furthest a.failed rest →
      Follows before text a

/-- A whole pattern is attempted in the way in which the reader goes on. -/
inductive Scan.Follows (s : Scan) (text : List Char) (a : Attempt) : Prop
  | ends {last : Scan} {tokens : Tokens} : s.behind? text = some last →
      last.finish? = some tokens → a.rest? = some [] → Follows s text a
  | stuck (front rest : List Char) {last : Scan} : text = front ++ rest →
      s.behind? front = some last → last.Stuck rest → a.rest? = none → Furthest a.failed rest →
      Follows s text a

namespace Stage

theorem blocks_of_reserved {stage : Stage} {text : List Char}
    (stop : ∀ c ∈ text.head?, isPlain c = false)
    (colon : text.head? = some ':' → stage.colon? = none)
    (star : text.head? = some '*' → stage.star? = none) : stage.Blocks text := by
  intro c isHead noMark terms markers
  rw [Scan.step?, noMark]
  by_cases isColon : c = ':'
  · rw [isColon] at isHead
    simp [isColon, colon isHead]
  · by_cases isStar : c = '*'
    · rw [isStar] at isHead
      simp [isStar, star isHead]
    · have plain : c ∉ reserved := plain_iff.mpr ⟨noMark, isColon, isStar⟩
      have stopped := stop c isHead
      simp [isPlain, plain] at stopped

theorem blocks_closed (term : Term) (text : List Char) : (closed term).Blocks text := by
  intro c _ noMark terms markers
  rw [Scan.step?, noMark]
  simp only [colon?, star?, letter?, ite_self, Option.map_none]

/-- Where a term cannot end and the reader cannot go on within it, it is stuck. -/
theorem Blocks.stuck {stage : Stage} {text : List Char} (h : stage.Blocks text)
    (unfinished : stage.term? = none) (terms : List Term) (markers : List Marker) :
    Scan.Stuck ⟨terms, markers, stage⟩ text := by
  cases text with
  | nil => simp only [Scan.Stuck, Scan.finish?, unfinished, Option.map_none]
  | cons c rest =>
      rw [Scan.Stuck]
      cases isMark : Marker.ofChar? c with
      | none => exact h c rfl isMark terms markers
      | some marker => simp only [Scan.step?, isMark, unfinished, Option.map_none]

end Stage

/-! ## Names and stars -/

/-- A stage in front of a name or a star, and the stages inside of the name. -/
structure Stage.Awaits (before : Stage) (inside : List Char → Stage) : Prop where
  unfinished : before.term? = none
  noColon : before.colon? = none
  star : ∃ term, before.star? = some (.closed term)
  opens (c : Char) : before.letter? c = some (inside [c])
  grows (c : Char) (chars : List Char) : (inside chars).letter? c = some (inside (c :: chars))
  ends (chars : List Char) : ∃ term, (inside chars).term? = some term
  noStar (chars : List Char) : (inside chars).star? = none

namespace Stage

theorem awaits_opening : Awaits .opening .name where
  unfinished := rfl
  noColon := rfl
  star := ⟨_, rfl⟩
  opens _ := rfl
  grows _ _ := rfl
  ends _ := ⟨_, rfl⟩
  noStar _ := rfl

theorem awaits_labelled (label : String) : Awaits (.labelled label) (.labelledName label) where
  unfinished := rfl
  noColon := rfl
  star := ⟨_, rfl⟩
  opens _ := rfl
  grows _ _ := rfl
  ends _ := ⟨_, rfl⟩
  noStar _ := rfl

variable {before : Stage} {inside : List Char → Stage} {c : Char} {text rest : List Char}

/-- The reader goes through a name as far as it goes. -/
theorem Awaits.behind?_name (h : Awaits before inside) (plain : isPlain c = true)
    (rest : List Char) (terms : List Term) (markers : List Marker) :
    Scan.behind? ⟨terms, markers, before⟩ (c :: rest.takeWhile isPlain) =
      some ⟨terms, markers, inside ((rest.takeWhile isPlain).reverse ++ [c])⟩ := by
  have first := Scan.step?_letter (s := ⟨terms, markers, before⟩) (not_reserved_of_isPlain plain)
    (h.opens c)
  rw [Scan.behind?_cons, first, Option.bind_some]
  refine Scan.behind?_letters terms markers h.grows (fun d isInside => ?_) [c]
  exact not_reserved_of_isPlain (List.mem_takeWhile_imp isInside)

/-- The reader takes a name or a star where one is attempted. A colon behind the name must not
    make it a label. -/
theorem Awaits.nameOrStar (h : Awaits before inside) (text : List Char)
    (colon : ∀ c ∈ text.head?, isPlain c = true → (text.dropWhile isPlain).head? = some ':' →
      ∀ chars, (inside chars).colon? = none) :
    before.Follows text (Pattern.nameOrStar.attempt text) := by
  rw [Pattern.nameOrStar, Pattern.attempt_choice]
  by_cases star : text.head? = some '*'
  · obtain ⟨rest, rfl⟩ := List.head?_eq_some_iff.mp star
    obtain ⟨term, closes⟩ := h.star
    refine .ends ['*'] rest rfl (fun terms markers => ?_) (blocks_closed term rest) rfl rfl ?_
    · rw [Scan.behind?_cons, Scan.step?_star (s := ⟨terms, markers, before⟩) closes]
      rfl
    · simp [Attempt.orElse, Pattern.attempt_wildcard_star]
  · rw [Pattern.attempt_wildcard_of_stop star]
    by_cases stop : ∀ c ∈ text.head?, isPlain c = false
    · rw [Pattern.attempt_name_of_stop stop]
      refine .stuck [] text rfl (fun terms markers => rfl)
        (blocks_of_reserved stop (fun _ => h.noColon) fun isStar => absurd isStar star)
        h.unfinished rfl (.replicate 1 text)
    · obtain ⟨c, rest, rfl, plain⟩ := exists_plain stop
      rw [Pattern.attempt_name_of_plain plain]
      replace colon := colon c rfl plain
      rw [List.dropWhile_cons, if_pos plain] at colon
      obtain ⟨term, ends⟩ := h.ends ((rest.takeWhile isPlain).reverse ++ [c])
      have blocks := blocks_of_reserved (stop_dropWhile rest) (fun isColon => colon isColon _)
        fun _ => h.noStar ((rest.takeWhile isPlain).reverse ++ [c])
      refine .ends (c :: rest.takeWhile isPlain) (rest.dropWhile isPlain) ?_
        (h.behind?_name plain rest) blocks ends rfl ?_
      · rw [List.cons_append, List.takeWhile_append_dropWhile]
      · simp only [Attempt.orElse, Attempt.after, List.append_nil, List.forall_mem_singleton]
        exact (List.length_dropWhile_le isPlain rest).trans (Nat.le_succ _)

/-! ## Terms -/

namespace Follows

variable {middle : Stage} {a : Attempt} {front : List Char}

theorem prepend (h : middle.Follows rest a) (passed : ∀ terms markers,
    Scan.behind? ⟨terms, markers, before⟩ front = some ⟨terms, markers, middle⟩) :
    before.Follows (front ++ rest) a := by
  have passes {more : List Char} {stage : Stage} (later : ∀ terms markers,
      Scan.behind? ⟨terms, markers, middle⟩ more = some ⟨terms, markers, stage⟩)
      (terms : List Term) (markers : List Marker) :
      Scan.behind? ⟨terms, markers, before⟩ (front ++ more) = some ⟨terms, markers, stage⟩ := by
    rw [Scan.behind?_append, passed, Option.bind_some, later]
  cases h with
  | ends more back cut later blocks isTerm found within =>
      exact .ends (front ++ more) back (by rw [cut, List.append_assoc]) (passes later) blocks isTerm
        found within
  | stuck more back cut later blocks unfinished nothing furthest =>
      exact .stuck (front ++ more) back (by rw [cut, List.append_assoc]) (passes later) blocks
        unfinished nothing furthest

/-- Attempts in vain at the start of a text are not the furthest ones. -/
theorem after (h : before.Follows text a) {failed : List (List Char)}
    (early : ∀ other ∈ failed, other = text) : before.Follows text (a.after failed) := by
  have lengths {front rest : List Char} (cut : text = front ++ rest) :
      ∀ other ∈ failed, rest.length ≤ other.length := by
    intro other isEarly
    rw [early other isEarly, cut, List.length_append]
    exact Nat.le_add_left _ _
  cases h with
  | ends front rest cut passed blocks isTerm found within =>
      exact .ends front rest cut passed blocks isTerm found
        (List.forall_mem_append.mpr ⟨lengths cut, within⟩)
  | stuck front rest cut passed blocks unfinished nothing furthest =>
      exact .stuck front rest cut passed blocks unfinished nothing
        (furthest.append_left (lengths cut))

theorem noted (h : before.Follows text a) : before.Follows text (a.noted text) := by
  cases found : a.rest? with
  | some rest =>
      rw [Attempt.noted_of_match found]
      exact h
  | none =>
      rw [Attempt.noted_of_none found]
      exact h.after (by simp)

end Follows

/-- The reader takes a term where one is attempted: whether there is a label is settled for
    both when they meet a colon. -/
theorem term_follows (text : List Char) : opening.Follows text (Pattern.term.attempt text) := by
  rw [Pattern.term, Pattern.attempt_rule, Pattern.attempt_sequence, Pattern.attempt_optional]
  refine Follows.noted ?_
  rcases Pattern.attempt_labelAndColon text with
    ⟨c, rest, more, rfl, plain, behind, found⟩ | ⟨failed, nothing, early, noColon⟩
  · have cut : c :: rest = (c :: rest.takeWhile isPlain ++ [':']) ++ more := by
      rw [List.append_assoc, List.singleton_append, ← behind, List.cons_append,
        List.takeWhile_append_dropWhile]
    have later := (awaits_labelled (textOf ((rest.takeWhile isPlain).reverse ++ [c]))).nameOrStar
      more (fun _ _ _ _ _ => rfl)
    rw [found]
    simp only [Attempt.orElse, Attempt.andThen]
    rw [cut]
    refine Follows.prepend (later.after (by simp)) fun terms markers => ?_
    rw [Scan.behind?_append, awaits_opening.behind?_name plain, Option.bind_some,
      Scan.behind?_cons, Scan.step?_colon (s := ⟨terms, markers, _⟩) rfl]
    rfl
  · rw [nothing]
    simp only [Attempt.orElse, Attempt.andThen, Attempt.after, List.append_nil]
    exact (awaits_opening.nameOrStar text fun c isHead plain colon =>
      absurd colon (noColon c isHead plain)).after early

end Stage

/-! ## Whole texts -/

namespace Pattern

variable {text rest : List Char} {failed : List (List Char)}

theorem attempt_parts (text : List Char) : parts.attempt text =
    (Attempt.repeated part.attempt text).andThen (rule textEnd).attempt := by
  rw [parts, attempt_sequence, attempt_many]

theorem attempt_parts_of_match (found : part.attempt text = ⟨some rest, failed⟩)
    (shorter : rest.length < text.length) :
    parts.attempt text = (parts.attempt rest).after failed := by
  rw [attempt_parts, Attempt.repeated_of_match found shorter, Attempt.after_andThen, attempt_parts]

theorem attempt_parts_of_none (nothing : part.attempt text = ⟨none, failed⟩) :
    parts.attempt text = ((rule textEnd).attempt text).after failed := by
  rw [attempt_parts, Attempt.repeated_of_none nothing]
  rfl

theorem attempt_part_of_stop (stop : ∀ c ∈ text.head?, Marker.ofChar? c = none) :
    part.attempt text = ⟨none, [text, text, text]⟩ := by
  rw [part, attempt_sequence, attempt_mark_of_stop stop]
  rfl

/-- Behind a mark a term is attempted. -/
theorem attempt_part_char (marker : Marker) (rest : List Char) :
    ∃ failed, part.attempt (marker.char :: rest) = (term.attempt rest).after failed ∧
      ∀ other ∈ failed, other = marker.char :: rest := by
  obtain ⟨failed, found, early⟩ := attempt_mark_char marker rest
  refine ⟨failed, ?_, early⟩
  rw [part, attempt_sequence, found]
  rfl

end Pattern

namespace Scan

variable {s middle : Scan} {front rest text : List Char} {a : Attempt}

/-- What is attempted behind a text that the reader passes. -/
theorem Follows.prepend (h : middle.Follows rest a) (passed : s.behind? front = some middle)
    {failed : List (List Char)} (early : ∀ other ∈ failed, rest.length ≤ other.length) :
    s.Follows (front ++ rest) (a.after failed) := by
  cases h with
  | ends later finished found =>
      exact .ends (by rw [behind?_append, passed, Option.bind_some, later]) finished found
  | stuck more back cut later isStuck nothing furthest =>
      refine .stuck (front ++ more) back (by rw [cut, List.append_assoc])
        (by rw [behind?_append, passed, Option.bind_some, later]) isStuck nothing
        (furthest.append_left fun other isEarly => ?_)
      have shorter : back.length ≤ rest.length := by
        rw [cut, List.length_append]
        exact Nat.le_add_left _ _
      exact shorter.trans (early other isEarly)

theorem Follows.noted (h : s.Follows text a) : s.Follows text (a.noted text) := by
  cases h with
  | ends passed finished found =>
      rw [Attempt.noted_of_match found]
      exact .ends passed finished found
  | stuck front rest cut passed isStuck nothing furthest =>
      have shorter : ∀ other ∈ [text], rest.length ≤ other.length := by
        rw [List.forall_mem_singleton, cut, List.length_append]
        exact Nat.le_add_left _ _
      rw [Attempt.noted_of_none nothing]
      exact .stuck front rest cut passed isStuck nothing (furthest.append_left shorter)

variable {stage next : Stage} {term : Term} {back : List Char}

/-- Behind a term and a mark the reader goes on with another term. -/
theorem behind?_part (marker : Marker) (ends : stage.term? = some term)
    (passed : ∀ terms markers, behind? ⟨terms, markers, .opening⟩ front =
      some ⟨terms, markers, next⟩) (terms : List Term) (markers : List Marker) :
    behind? ⟨terms, markers, stage⟩ (marker.char :: front) =
      some ⟨term :: terms, marker :: markers, next⟩ := by
  rw [behind?_cons, step?_marker (s := ⟨terms, markers, stage⟩) marker ends, Option.bind_some]
  exact passed _ _

theorem parts_end (ends : stage.term? = some term) (terms : List Term) (markers : List Marker) :
    Follows ⟨terms, markers, stage⟩ [] (Pattern.parts.attempt []) := by
  rw [Pattern.attempt_parts_of_none (Pattern.attempt_part_of_stop (by simp))]
  exact .ends rfl (by rw [finish?, ends, Option.map_some]) rfl

/-- What is neither a mark nor more of the term is not the end either. -/
theorem parts_blocked {c : Char} (noMark : Marker.ofChar? c = none)
    (blocks : stage.Blocks (c :: rest)) (terms : List Term) (markers : List Marker) :
    Follows ⟨terms, markers, stage⟩ (c :: rest) (Pattern.parts.attempt (c :: rest)) := by
  have stop : ∀ d ∈ (c :: rest).head?, Marker.ofChar? d = none := by simpa using noMark
  rw [Pattern.attempt_parts_of_none (Pattern.attempt_part_of_stop stop)]
  exact .stuck [] (c :: rest) rfl rfl (blocks c rfl noMark terms markers) rfl
    (.replicate 3 (c :: rest))

/-- Where no term follows on a mark, the end is attempted in vain at the mark, but what came
    before that went further. -/
theorem parts_in_vain (marker : Marker) (ends : stage.term? = some term)
    (cut : rest = front ++ back) (passed : ∀ terms markers,
      behind? ⟨terms, markers, .opening⟩ front = some ⟨terms, markers, next⟩)
    (blocks : next.Blocks back) (unfinished : next.term? = none)
    (nothing : (Pattern.term.attempt rest).rest? = none)
    (furthest : Furthest (Pattern.term.attempt rest).failed back) (terms : List Term)
    (markers : List Marker) : Follows ⟨terms, markers, stage⟩ (marker.char :: rest)
      (Pattern.parts.attempt (marker.char :: rest)) := by
  obtain ⟨failed, attempted, early⟩ := Pattern.attempt_part_char marker rest
  rw [Attempt.after, nothing] at attempted
  rw [Pattern.attempt_parts_of_none attempted]
  have shorter : back.length ≤ (marker.char :: rest).length := by
    rw [cut, List.length_cons, List.length_append]
    omega
  have notAtEnd : ∀ other ∈ [marker.char :: rest], back.length ≤ other.length :=
    List.forall_mem_singleton.mpr shorter
  have farther := (furthest.append_left fun other isEarly =>
    early other isEarly ▸ shorter).append_right notAtEnd
  exact .stuck (marker.char :: front) back (by rw [cut, List.cons_append])
    (behind?_part marker ends passed terms markers)
    (blocks.stuck unfinished (term :: terms) (marker :: markers)) rfl farther

/-- Behind a term the reader goes on as the attempts do. The induction is on the length of what is
    left, which each part makes shorter. -/
theorem parts_follows (text : List Char) (ends : stage.term? = some term)
    (blocks : stage.Blocks text) (terms : List Term) (markers : List Marker) :
    Follows ⟨terms, markers, stage⟩ text (Pattern.parts.attempt text) := by
  induction length : text.length using Nat.strong_induction_on
    generalizing text stage term terms markers with
  | _ n ih =>
      cases text with
      | nil => exact parts_end ends terms markers
      | cons c rest =>
          cases isMark : Marker.ofChar? c with
          | none => exact parts_blocked isMark blocks terms markers
          | some marker =>
              obtain rfl := Marker.eq_of_ofChar? isMark
              cases Stage.term_follows rest with
              | ends front back cut passed nextBlocks isTerm matched within =>
                  subst cut
                  obtain ⟨failed, attempted, early⟩ :=
                    Pattern.attempt_part_char marker (front ++ back)
                  rw [Attempt.after, matched] at attempted
                  have shorter : back.length < (marker.char :: (front ++ back)).length := by
                    rw [List.length_cons, List.length_append]
                    omega
                  have later := ih back.length (length ▸ shorter) back isTerm nextBlocks
                    (term :: terms) (marker :: markers) rfl
                  rw [Pattern.attempt_parts_of_match attempted shorter, ← List.cons_append]
                  refine later.prepend (behind?_part marker ends passed terms markers)
                    (List.forall_mem_append.mpr ⟨fun other isEarly => ?_, within⟩)
                  rw [early other isEarly]
                  exact le_of_lt shorter
              | stuck front back cut passed nextBlocks unfinished nothing furthest =>
                  exact parts_in_vain marker ends cut passed nextBlocks unfinished nothing furthest
                    terms markers

/-- A chain is attempted in the way in which the reader goes. -/
theorem chain_follows (text : List Char) : Follows {} text (Pattern.chain.attempt text) := by
  rw [Pattern.chain, Pattern.attempt_rule, Pattern.attempt_sequence]
  refine Follows.noted ?_
  cases Stage.term_follows text with
  | ends front rest cut passed blocks isTerm matched within =>
      rw [Attempt.andThen_of_match matched]
      have later := (parts_follows rest isTerm blocks [] []).prepend (passed [] []) within
      rwa [← cut] at later
  | stuck front rest cut passed blocks unfinished nothing furthest =>
      rw [Attempt.andThen_of_none nothing]
      exact .stuck front rest cut (passed [] []) (blocks.stuck unfinished [] []) nothing furthest

end Scan

end SchemaGraph.Chain
