import SchemaGraph.Proofs.Chain.Grammar

/-! # The reader and the grammar

The reader of chains gets through a text exactly when it is a sentence, and then gives the
terms and marks of that sentence. Both directions go along what a stage has read of a term.
-/

namespace SchemaGraph.Chain

/-! ## What is read is a beginning of a sentence -/

/-- The characters that a stage has read of the term at hand. -/
inductive Stage.Reads : Stage → List Char → Prop
  | opening : Reads .opening []
  | name {chars : List Char} : IsName (textOf chars) → Reads (.name chars) chars.reverse
  | labelled {label : String} : IsName label → Reads (.labelled label) (label.toList ++ [':'])
  | labelledName {label : String} {chars : List Char} : IsName label → IsName (textOf chars) →
      Reads (.labelledName label chars) (label.toList ++ ':' :: chars.reverse)
  | closed {w : Spelling} : w.name = wildcard → Reads (.closed w.term) w.chars

namespace Stage

@[simp] theorem toList_textOf (chars : List Char) : (textOf chars).toList = chars.reverse :=
  String.toList_ofList

theorem isName_textOf_iff {chars : List Char} :
    IsName (textOf chars) ↔ chars ≠ [] ∧ ∀ c ∈ chars, c ∉ reserved := by
  rw [IsName, toList_textOf, ne_eq, ← String.toList_eq_nil_iff, toList_textOf]
  simp

theorem isName_textOf_cons {c : Char} {chars : List Char} (plain : c ∉ reserved)
    (others : ∀ d ∈ chars, d ∉ reserved) : IsName (textOf (c :: chars)) :=
  isName_textOf_iff.mpr ⟨List.cons_ne_nil _ _, List.forall_mem_cons.mpr ⟨plain, others⟩⟩

namespace Reads

variable {stage next : Stage} {read : List Char}

theorem term (h : stage.Reads read) {t : Term} (ends : stage.term? = some t) :
    ∃ w : Spelling, w.chars = read ∧ w.term = t := by
  cases h with
  | opening => cases ends
  | @name chars isName =>
      exact ⟨⟨none, textOf chars, by simp, Or.inr isName⟩, toList_textOf chars,
        Option.some_inj.mp ends⟩
  | labelled isName => cases ends
  | @labelledName label chars labelIsName isName =>
      refine ⟨⟨some label, textOf chars, by simpa using labelIsName, Or.inr isName⟩, ?_,
        Option.some_inj.mp ends⟩
      rw [Spelling.chars, toList_textOf]
  | @closed w isWildcard => exact ⟨w, rfl, Option.some_inj.mp ends⟩

theorem colon (h : stage.Reads read) (stepped : stage.colon? = some next) :
    next.Reads (read ++ [':']) := by
  cases h with
  | name isName =>
      cases stepped
      rw [← toList_textOf]
      exact .labelled isName
  | opening => cases stepped
  | labelled isName => cases stepped
  | labelledName labelIsName isName => cases stepped
  | closed isWildcard => cases stepped

theorem star (h : stage.Reads read) (stepped : stage.star? = some next) :
    next.Reads (read ++ ['*']) := by
  cases h with
  | opening =>
      cases stepped
      rw [List.nil_append, ← toList_wildcard]
      exact .closed (w := ⟨none, wildcard, by simp, Or.inl rfl⟩) rfl
  | @labelled label isName =>
      cases stepped
      rw [List.append_assoc, ← toList_wildcard]
      exact .closed (w := ⟨some label, wildcard, by simpa using isName, Or.inl rfl⟩) rfl
  | name isName => cases stepped
  | labelledName labelIsName isName => cases stepped
  | closed isWildcard => cases stepped

theorem letter (h : stage.Reads read) {c : Char} (plain : c ∉ reserved)
    (stepped : stage.letter? c = some next) : next.Reads (read ++ [c]) := by
  cases h with
  | opening =>
      cases stepped
      exact .name (isName_textOf_cons plain (by simp))
  | @name chars isName =>
      cases stepped
      rw [← List.reverse_cons]
      exact .name (isName_textOf_cons plain (isName_textOf_iff.mp isName).2)
  | labelled isName =>
      cases stepped
      rw [List.append_assoc]
      exact .labelledName isName (isName_textOf_cons plain (by simp))
  | @labelledName label chars labelIsName isName =>
      cases stepped
      rw [List.append_assoc, List.cons_append, ← List.reverse_cons]
      exact .labelledName labelIsName (isName_textOf_cons plain (isName_textOf_iff.mp isName).2)
  | closed isWildcard => cases stepped

end Reads

end Stage

namespace Scan

/-- What is read are terms each with the mark behind it, and some of the term at hand. -/
def Reads (s : Scan) (read : List Char) : Prop :=
  ∃ (passed : List (Spelling × Marker)) (begun : List Char),
    read = passed.flatMap (fun part => part.1.chars ++ [part.2.char]) ++ begun ∧
      s.terms = (passed.map fun part => part.1.term).reverse ∧
        s.markers = (passed.map Prod.snd).reverse ∧ s.stage.Reads begun

variable {s next : Scan} {read text : List Char}

theorem reads_start : Reads {} [] := ⟨[], [], rfl, rfl, rfl, .opening⟩

theorem Reads.step (h : s.Reads read) {c : Char} (stepped : s.step? c = some next) :
    next.Reads (read ++ [c]) := by
  obtain ⟨passed, begun, rfl, terms, markers, atHand⟩ := h
  rw [step?] at stepped
  split at stepped
  · rename_i marker isMark
    obtain ⟨term, ends, rfl⟩ := Option.map_eq_some_iff.mp stepped
    obtain ⟨w, rfl, rfl⟩ := atHand.term ends
    refine ⟨passed ++ [(w, marker)], [], ?_, ?_, ?_, .opening⟩
    · simp [Marker.eq_of_ofChar? isMark]
    · simp [terms]
    · simp [markers]
  · rename_i noMark
    obtain ⟨stage, goesOn, rfl⟩ := Option.map_eq_some_iff.mp stepped
    refine ⟨passed, begun ++ [c], (List.append_assoc _ _ _), terms, markers, ?_⟩
    split at goesOn
    · rename_i isColon
      exact isColon ▸ atHand.colon goesOn
    · rename_i noColon
      split at goesOn
      · rename_i isStar
        exact isStar ▸ atHand.star goesOn
      · rename_i noStar
        exact atHand.letter (plain_iff.mpr ⟨noMark, noColon, noStar⟩) goesOn

/-- The scan behind some characters, if all of them can be read. -/
def behind? (s : Scan) (text : List Char) : Option Scan := text.foldlM step? s

theorem behind?_cons (s : Scan) (c : Char) (rest : List Char) :
    s.behind? (c :: rest) = (s.step? c).bind fun next => next.behind? rest :=
  List.foldlM_cons

theorem behind?_append (s : Scan) (front back : List Char) :
    s.behind? (front ++ back) = (s.behind? front).bind fun next => next.behind? back :=
  List.foldlM_append

theorem Reads.behind (h : s.Reads read) (passed : s.behind? text = some next) :
    next.Reads (read ++ text) := by
  induction text generalizing s read with
  | nil =>
      cases passed
      rwa [List.append_nil]
  | cons c rest ih =>
      rw [behind?_cons] at passed
      obtain ⟨stepped, here, later⟩ := Option.bind_eq_some_iff.mp passed
      simpa using ih (h.step here) later

theorem run_eq_ok_iff {passed : Nat} {tokens : Tokens} : s.run passed text = .ok tokens ↔
    ∃ last, s.behind? text = some last ∧ last.finish? = some tokens := by
  induction text generalizing s passed with
  | nil =>
      rw [run]
      cases ended : s.finish? with
      | none => simp [behind?, ended]
      | some read => simp [behind?, ended]
  | cons c rest ih =>
      rw [run, behind?_cons]
      cases stepped : s.step? c with
      | none => simp
      | some next => simpa using ih

/-- Terms each with the mark behind it, and a last term, are the parts of a sentence. -/
theorem exists_sentence (passed : List (Spelling × Marker)) (last : Spelling) :
    ∃ s : Sentence,
      s.chars = passed.flatMap (fun part => part.1.chars ++ [part.2.char]) ++ last.chars ∧
        s.tokens = ⟨passed.map (fun part => part.1.term) ++ [last.term], passed.map Prod.snd⟩ := by
  induction passed with
  | nil =>
      refine ⟨⟨last, []⟩, ?_, rfl⟩
      simp [Sentence.chars, Sentence.restChars]
  | cons part passed ih =>
      obtain ⟨s, chars, tokens⟩ := ih
      obtain ⟨terms, markers⟩ := Tokens.mk.inj tokens
      refine ⟨⟨part.1, (part.2, s.first) :: s.rest⟩, ?_, ?_⟩
      · rw [List.flatMap_cons, List.append_assoc, List.append_assoc, ← chars]
        simp [Sentence.chars, Sentence.restChars]
      · simp [Sentence.tokens, terms, markers]

theorem Reads.finish (h : s.Reads read) {tokens : Tokens} (ends : s.finish? = some tokens) :
    ∃ sentence : Sentence, sentence.chars = read ∧ sentence.tokens = tokens := by
  obtain ⟨passed, begun, rfl, terms, markers, atHand⟩ := h
  obtain ⟨term, isTerm, rfl⟩ := Option.map_eq_some_iff.mp ends
  obtain ⟨w, rfl, rfl⟩ := atHand.term isTerm
  rw [terms, markers]
  simpa using exists_sentence passed w

/-! ## Sentences are read to the end -/

/-- The scan in front of a term. -/
def atTerm (terms : List Term) (markers : List Marker) : Scan := ⟨terms, markers, .opening⟩

theorem step?_marker {term : Term} (marker : Marker) (ends : s.stage.term? = some term) :
    s.step? marker.char = some (atTerm (term :: s.terms) (marker :: s.markers)) := by
  rw [step?, Marker.ofChar?_char]
  simp only [ends, Option.map_some]
  rfl

theorem step?_colon {stage : Stage} (goesOn : s.stage.colon? = some stage) :
    s.step? ':' = some { s with stage } := by
  rw [step?, show Marker.ofChar? ':' = none from rfl]
  simp [goesOn]

theorem step?_star {stage : Stage} (goesOn : s.stage.star? = some stage) :
    s.step? '*' = some { s with stage } := by
  rw [step?, show Marker.ofChar? '*' = none from rfl]
  simp [goesOn]

theorem step?_letter {c : Char} {stage : Stage} (plain : c ∉ reserved)
    (goesOn : s.stage.letter? c = some stage) : s.step? c = some { s with stage } := by
  obtain ⟨noMark, noColon, noStar⟩ := plain_iff.mp plain
  rw [step?, noMark]
  simp [noColon, noStar, goesOn]

/-- A stage that takes one more letter after the other takes a whole name. -/
theorem behind?_letters (terms : List Term) (markers : List Marker) {stage : List Char → Stage}
    (grows : ∀ c chars, (stage chars).letter? c = some (stage (c :: chars)))
    (plain : ∀ c ∈ text, c ∉ reserved) (chars : List Char) :
    behind? ⟨terms, markers, stage chars⟩ text =
      some ⟨terms, markers, stage (text.reverse ++ chars)⟩ := by
  induction text generalizing chars with
  | nil => rfl
  | cons c rest ih =>
      have here := step?_letter (s := ⟨terms, markers, stage chars⟩) (plain c List.mem_cons_self)
        (grows c chars)
      rw [behind?_cons, here, Option.bind_some,
        ih (fun d inside => plain d (List.mem_cons_of_mem c inside)), List.reverse_cons,
        List.append_assoc]
      rfl

variable (terms : List Term) (markers : List Marker) (before : Stage) (stage : List Char → Stage)

theorem behind?_name (opens : ∀ c, before.letter? c = some (stage [c]))
    (grows : ∀ c chars, (stage chars).letter? c = some (stage (c :: chars))) {name : String}
    (isName : IsName name) :
    behind? ⟨terms, markers, before⟩ name.toList =
      some ⟨terms, markers, stage name.toList.reverse⟩ := by
  obtain ⟨c, rest, letters⟩ := List.exists_cons_of_ne_nil isName.toList_ne_nil
  have plain := isName.2
  rw [letters] at plain ⊢
  have here := step?_letter (s := ⟨terms, markers, before⟩) (plain c List.mem_cons_self) (opens c)
  rw [behind?_cons, here, Option.bind_some,
    behind?_letters terms markers grows (fun d inside => plain d (List.mem_cons_of_mem c inside)),
    List.reverse_cons]

theorem behind?_term {label : Option String} (opens : ∀ c, before.letter? c = some (stage [c]))
    (grows : ∀ c chars, (stage chars).letter? c = some (stage (c :: chars)))
    (ends : ∀ chars, (stage chars).term? = some (.written label (Stage.textOf chars)))
    (stars : before.star? = some (.closed (.written label wildcard))) {name : String}
    (named : name = wildcard ∨ IsName name) :
    ∃ last : Stage, behind? ⟨terms, markers, before⟩ name.toList = some ⟨terms, markers, last⟩ ∧
      last.term? = some (.written label name) := by
  rcases named with rfl | isName
  · refine ⟨.closed (.written label wildcard), ?_, rfl⟩
    rw [toList_wildcard, behind?_cons,
      step?_star (s := ⟨terms, markers, before⟩) stars]
    rfl
  · refine ⟨_, behind?_name terms markers before stage opens grows isName, ?_⟩
    rw [ends, Stage.textOf, List.reverse_reverse, String.ofList_toList]

theorem behind?_spelling (w : Spelling) :
    ∃ last : Stage, (atTerm terms markers).behind? w.chars = some ⟨terms, markers, last⟩ ∧
      last.term? = some w.term := by
  rw [Spelling.chars, Spelling.term]
  cases own : w.label with
  | none =>
      exact behind?_term terms markers .opening .name (fun _ => rfl) (fun _ _ => rfl)
        (fun _ => rfl) rfl w.named
  | some label =>
      obtain ⟨last, passed, ends⟩ := behind?_term terms markers (.labelled label)
        (.labelledName label) (fun _ => rfl) (fun _ _ => rfl) (fun _ => rfl) rfl w.named
      refine ⟨last, ?_, ends⟩
      have labelRead := behind?_name terms markers .opening .name (fun _ => rfl)
        (fun _ _ => rfl) (w.labelled label own)
      have colon : Stage.colon? (.name label.toList.reverse) = some (.labelled label) := by
        rw [Stage.colon?, Stage.textOf, List.reverse_reverse, String.ofList_toList]
      simp only [behind?_append, behind?_cons, atTerm, labelRead, Option.bind_some,
        step?_colon (s := ⟨terms, markers, .name label.toList.reverse⟩) colon, passed]

theorem behind?_sentence (first : Spelling) (rest : List (Marker × Spelling)) :
    ∃ last, (atTerm terms markers).behind? (first.chars ++ Sentence.restChars rest) = some last ∧
      last.finish? = some ⟨terms.reverse ++ (Sentence.mk first rest).tokens.terms,
        markers.reverse ++ (Sentence.mk first rest).tokens.markers⟩ := by
  obtain ⟨stage, passed, ends⟩ := behind?_spelling terms markers first
  rw [behind?_append, passed, Option.bind_some]
  induction rest generalizing terms markers first stage with
  | nil => exact ⟨_, rfl, by simp [finish?, ends, Sentence.tokens]⟩
  | cons part rest ih =>
      obtain ⟨nextStage, passedToo, endsToo⟩ :=
        behind?_spelling (first.term :: terms) (part.1 :: markers) part.2
      obtain ⟨last, later, read⟩ := ih _ _ part.2 nextStage passedToo endsToo
      refine ⟨last, ?_, ?_⟩
      · rw [Sentence.restChars, List.flatMap_cons, List.cons_append, behind?_cons,
          step?_marker (s := ⟨terms, markers, stage⟩) part.1 ends, Option.bind_some,
          behind?_append, passedToo]
        exact later
      · simpa [Sentence.tokens] using read

end Scan

/-- What the reader accepts are the sentences, with their terms and marks. -/
theorem scan_eq_ok_iff {text : List Char} {tokens : Tokens} :
    scan text = .ok tokens ↔ ∃ s : Sentence, s.chars = text ∧ s.tokens = tokens := by
  rw [scan, Scan.run_eq_ok_iff]
  constructor
  · rintro ⟨last, passed, ends⟩
    exact (Scan.reads_start.behind passed).finish ends
  · rintro ⟨s, rfl, rfl⟩
    exact Scan.behind?_sentence [] [] s.first s.rest

end SchemaGraph.Chain
