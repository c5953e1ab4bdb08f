import Ballad.Proofs.Reading.Runs
import Ballad.Proofs.Tiling
import Mathlib.Data.List.TakeWhile

/-!
# Poetic numbers

In `my heart is a lonely. hunter's dream` the words after the copula write a number: each of them is a
digit, its length modulo ten, and the full stop is the decimal point. The reader goes through the line
from left to right and counts letters; here the number is said of the line as a whole.

- `Decimal`, `Decimal.text`: a number in decimal notation.
- `Decimal.ofLexemes`: the number that a line writes. Words that touch each other are one run
  (`wordDigits`), and the first blank that begins with a full stop is the decimal point
  (`Lexeme.isPoint`).
- `Digits.digitsFrom`: the digits of a line when letters have been counted already.
- `Digits.foldl_of_not_dotted`, `Digits.foldl_of_dotted`: what the reader has after a line.
- `Digits.foldl_splitCopula`: a word has as many letters in two parts as in one.
- `Decimal.ofText?_text`: the number that is read from the decimal notation.

The blanks before the first word are passed over without a look for the decimal point. So the number
is that of the line without them, and this is the number of the line exactly if none of them begins
with a full stop.
-/

namespace Ballad

/-! ### Decimal notation -/

namespace Number

/-- Digits with a fraction, which may be empty, are read as one decimal number. -/
theorem unsigned?_digits {whole fraction : List Char} (hne : whole ≠ [])
    (hwhole : ∀ c ∈ whole, c.isDigit) (hfraction : ∀ c ∈ fraction, c.isDigit) :
    unsigned? false (whole ++ if fraction = [] then [] else '.' :: fraction) =
      some (ofDecimal false (digitsValue (whole ++ fraction)) (whole ++ fraction).length
        (-fraction.length)) := by
  have hempty : (whole ++ fraction).isEmpty = false := by simp [hne]
  unfold unsigned?
  dsimp only
  rw [List.takeWhile_append_of_pos hwhole, List.dropWhile_append_of_pos hwhole]
  by_cases hnone : fraction = []
  · subst hnone
    simp [hne, exponentOf?]
  · have htake : fraction.takeWhile Char.isDigit = fraction := List.takeWhile_eq_self_iff.mpr hfraction
    have hdrop : fraction.dropWhile Char.isDigit = [] := List.dropWhile_eq_nil_iff.mpr hfraction
    rw [if_neg hnone]
    simp [htake, hdrop, hne, exponentOf?, show Char.isDigit '.' = false from rfl]

/-- The value of some digits does not depend on how they are written. -/
theorem digitsValue_map {ds : List Nat} (h : ∀ x ∈ ds, x < 10) :
    digitsValue (ds.map Nat.digitChar) = ds.foldl (fun n x => n * 10 + x) 0 := by
  rw [digitsValue, List.foldl_map]
  refine List.foldl_ext _ _ _ fun n x hx => ?_
  rw [Nat.toNat_digitChar_of_lt_ten (h x hx)]
  show n * 10 + (48 + x - 48) = n * 10 + x
  omega

/-- Digits are no sign. -/
theorem splitSign_of_isDigit {c : Char} (h : c.isDigit) (cs : List Char) :
    splitSign (c :: cs) = (false, c :: cs) := by
  unfold splitSign
  split
  · rename_i heq
    rw [(List.cons.inj heq).1] at h
    cases h
  · rename_i heq
    rw [(List.cons.inj heq).1] at h
    cases h
  · rfl

end Number

namespace Reading

/-- A number in decimal notation, by its digits. -/
structure Decimal where
  integer : List Nat
  fraction : List Nat
deriving DecidableEq, Repr

/-- The text of a decimal number. Without digits before the point, there is a zero. -/
def Decimal.text (d : Decimal) : String :=
  String.ofList ((if d.integer = [] then ['0'] else d.integer.map Nat.digitChar) ++
    if d.fraction = [] then [] else '.' :: d.fraction.map Nat.digitChar)

/-- The number that is read from the text of a decimal number. -/
theorem Decimal.ofText?_text {d : Decimal} (hne : d.integer ≠ [])
    (hdigits : ∀ x ∈ d.integer ++ d.fraction, x < 10) :
    Number.ofText? d.text =
      some (Number.ofDecimal false ((d.integer ++ d.fraction).foldl (fun n x => n * 10 + x) 0)
        (d.integer ++ d.fraction).length (-d.fraction.length)) := by
  have hchars : ∀ ds : List Nat, (∀ x ∈ ds, x < 10) → ∀ c ∈ ds.map Nat.digitChar, c.isDigit := by
    intro ds hds c hc
    obtain ⟨x, hx, rfl⟩ := List.mem_map.mp hc
    simpa [Nat.isDigit_digitChar] using hds x hx
  have hinteger := hchars d.integer fun x hx => hdigits x (List.mem_append_left _ hx)
  have hfraction := hchars d.fraction fun x hx => hdigits x (List.mem_append_right _ hx)
  have hsigned := Number.unsigned?_digits (by simpa using hne) hinteger hfraction
  rw [← List.map_append, Number.digitsValue_map hdigits, List.length_map, List.length_map] at hsigned
  have htext : d.text.toList = d.integer.map Nat.digitChar ++
      if d.fraction.map Nat.digitChar = [] then [] else '.' :: d.fraction.map Nat.digitChar := by
    simp [text, hne]
  obtain ⟨c, cs, hcs⟩ := List.exists_cons_of_ne_nil (by simpa using hne :
    d.integer.map Nat.digitChar ≠ [])
  have hsign : Number.splitSign d.text.toList = (false, d.text.toList) := by
    rw [htext, hcs]
    exact Number.splitSign_of_isDigit (hinteger c (by simp [hcs])) _
  rw [Number.ofText?, hsign, htext]
  dsimp only
  rw [hsigned]
  rfl

/-! ### The number that a line writes -/

end Reading

/-- A blank that begins with a full stop. -/
def Lexeme.isPoint (l : Lexeme) : Bool :=
  l.kind == .whitespace && l.literal.toList.head? == some '.'

namespace Reading

/-- The number of letters in a run of words. -/
def runLetters (run : List Lexeme) : Nat :=
  (run.flatMap (·.literal.toList)).countP Text.isLetter

/-- The digits of some runs of words: the number of their letters modulo ten. -/
def runDigits (runs : List (List Lexeme)) : List Nat :=
  (runs.filter fun run => !run.isEmpty).map fun run => runLetters run % 10

/-- The digits that the words of a line write. Words that touch each other are one run. -/
def wordDigits (ls : List Lexeme) : List Nat :=
  runDigits (ls.splitOnP fun l => l.kind != .identifier)

/-- The number that a line writes: the digits before the decimal point, and those after it. -/
def Decimal.ofLexemes (ls : List Lexeme) : Decimal where
  integer := wordDigits (ls.takeWhile fun l => !l.isPoint)
  fraction := wordDigits (ls.dropWhile fun l => !l.isPoint)

/-- Letters are counted up to ten. -/
theorem lt_of_mem_wordDigits {ls : List Lexeme} {x : Nat} (h : x ∈ wordDigits ls) : x < 10 := by
  obtain ⟨run, -, rfl⟩ := List.mem_map.mp h
  exact Nat.mod_lt _ (by decide)

/-! ### Reading it from left to right -/

namespace Digits

variable {d : Digits} {l : Lexeme} {ls : List Lexeme}

/-- The digit of a word, if one is being read. -/
def pendingDigit (pending : Option Nat) : List Nat :=
  (pending.map (· % 10)).toList

/-- The digits of a line, when some letters of its first word have been counted already. -/
def digitsFrom (pending : Option Nat) : List Lexeme → List Nat
  | [] => pendingDigit pending
  | l :: ls =>
    if l.kind = .identifier then digitsFrom (some (pending.getD 0 + letters l)) ls
    else pendingDigit pending ++ digitsFrom none ls

theorem exists_runs (ls : List Lexeme) :
    ∃ run runs, ls.splitOnP (fun l => l.kind != .identifier) = run :: runs :=
  List.exists_cons_of_ne_nil (List.splitOnP_ne_nil _ ls)

theorem runLetters_cons (l : Lexeme) (run : List Lexeme) :
    runLetters (l :: run) = letters l + runLetters run := by
  rw [runLetters, List.flatMap_cons, List.countP_append]
  rfl

/-- Words that stand next to each other add to one digit; each gap begins another. -/
theorem digitsFrom_eq {first : List Lexeme} {others : List (List Lexeme)}
    (h : ls.splitOnP (fun l => l.kind != .identifier) = first :: others) :
    digitsFrom none ls = runDigits (first :: others) ∧
    ∀ count, digitsFrom (some count) ls =
      (count + runLetters first) % 10 :: runDigits others := by
  -- both at once: a word turns the first into the second, and a gap the second into the first
  induction ls generalizing first others with
  | nil =>
    rw [List.splitOnP_nil] at h
    cases h
    exact ⟨rfl, fun count => rfl⟩
  | cons l ls ih =>
    obtain ⟨run, runs, hruns⟩ := exists_runs ls
    obtain ⟨hnone, hsome⟩ := ih hruns
    rw [List.splitOnP_cons_eq_if_modifyHead, hruns] at h
    by_cases hkind : l.kind = .identifier
    · rw [if_neg (by simp [hkind])] at h
      cases h
      simp only [digitsFrom, if_pos hkind, hsome]
      simp [runDigits, runLetters_cons, Nat.add_assoc]
    · rw [if_pos (by simpa using hkind)] at h
      cases h
      simp only [digitsFrom, if_neg hkind, hnone]
      simp [runDigits, runLetters, pendingDigit]

/-- Without a word that is being read, these are the digits of the line. -/
theorem digitsFrom_none (ls : List Lexeme) : digitsFrom none ls = wordDigits ls := by
  obtain ⟨run, runs, hruns⟩ := exists_runs ls
  rw [wordDigits, hruns]
  exact (digitsFrom_eq hruns).1

theorem digitsFrom_some_ne_nil (count : Nat) (ls : List Lexeme) :
    digitsFrom (some count) ls ≠ [] := by
  obtain ⟨run, runs, hruns⟩ := exists_runs ls
  rw [(digitsFrom_eq hruns).2 count]
  exact List.cons_ne_nil _ _

/-- After the point, a word that has ended is a digit of the fraction. -/
theorem flush_of_dotted (h : d.dotted) :
    d.flush = { d with fraction := d.fraction ++ pendingDigit d.pending, pending := none } := by
  obtain ⟨integer, fraction, pending, dotted, span⟩ := d
  cases pending with
  | none => simp [flush, pendingDigit]
  | some count => simp_all [flush, pendingDigit]

/-- Before it, a word that has ended is a digit of the integer. -/
theorem flush_of_not_dotted (h : d.dotted = false) :
    d.flush = { d with integer := d.integer ++ pendingDigit d.pending, pending := none } := by
  obtain ⟨integer, fraction, pending, dotted, span⟩ := d
  cases pending with
  | none => simp [flush, pendingDigit]
  | some count => simp_all [flush, pendingDigit]

/-- The first point ends the integer. -/
theorem push_of_point (hd : d.dotted = false) (hl : l.isPoint) :
    d.push l = { d.flush with dotted := true } := by
  obtain ⟨hkind, hhead⟩ := Bool.and_eq_true_iff.mp hl
  rw [push, beq_iff_eq.mp hkind]
  simp [hd, hhead]

/-- Anything else between words ends a word. -/
theorem push_of_gap (hkind : l.kind ≠ .identifier) (h : d.dotted ∨ l.isPoint = false) :
    d.push l = d.flush := by
  unfold push
  split
  · contradiction
  · rename_i hspace
    refine if_neg fun hpoint => ?_
    simp [Lexeme.isPoint, hspace] at h hpoint
    rcases h with hdotted | hhead
    · rw [hdotted] at hpoint
      cases hpoint.1
    · exact hhead hpoint.2
  · rfl

theorem isPoint_eq_false (h : l.kind = .identifier) : l.isPoint = false := by
  simp [Lexeme.isPoint, h]

/-- After the decimal point all digits belong to the fraction. -/
theorem foldl_of_dotted (hd : d.dotted) (ls : List Lexeme) :
    (ls.foldl push d).flush.integer = d.integer ∧
    (ls.foldl push d).flush.fraction = d.fraction ++ digitsFrom d.pending ls := by
  induction ls generalizing d with
  | nil =>
    rw [List.foldl_nil, flush_of_dotted hd]
    exact ⟨rfl, rfl⟩
  | cons l ls ih =>
    rw [List.foldl_cons]
    by_cases hkind : l.kind = .identifier
    · have hpush : (d.push l).dotted = true := by rw [push, hkind]; exact hd
      obtain ⟨hinteger, hfraction⟩ := ih hpush
      rw [hinteger, hfraction, push, hkind, digitsFrom, if_pos hkind]
      exact ⟨rfl, rfl⟩
    · have hpush := push_of_gap hkind (.inl hd)
      rw [flush_of_dotted hd] at hpush
      obtain ⟨hinteger, hfraction⟩ := ih (d := d.push l) (by rw [hpush]; exact hd)
      rw [hinteger, hfraction, hpush, digitsFrom, if_neg hkind]
      exact ⟨rfl, List.append_assoc _ _ _⟩

/-- Before it, the digits up to the decimal point belong to the integer part. -/
theorem foldl_of_not_dotted (hd : d.dotted = false) (ls : List Lexeme) :
    (ls.foldl push d).flush.integer =
      d.integer ++ digitsFrom d.pending (ls.takeWhile fun l => !l.isPoint) ∧
    (ls.foldl push d).flush.fraction =
      d.fraction ++ digitsFrom none (ls.dropWhile fun l => !l.isPoint) := by
  induction ls generalizing d with
  | nil =>
    rw [List.foldl_nil, flush_of_not_dotted hd]
    exact ⟨rfl, (List.append_nil _).symm⟩
  | cons l ls ih =>
    rw [List.foldl_cons]
    by_cases hkind : l.kind = .identifier
    · have hpush : (d.push l).dotted = false := by rw [push, hkind]; exact hd
      obtain ⟨hinteger, hfraction⟩ := ih hpush
      rw [hinteger, hfraction, List.takeWhile_cons, List.dropWhile_cons, isPoint_eq_false hkind,
        push, hkind]
      exact ⟨congrArg _ (if_pos hkind).symm, rfl⟩
    · by_cases hpoint : l.isPoint
      · -- the rest of the line is the fraction
        have hpush := push_of_point hd hpoint
        rw [flush_of_not_dotted hd] at hpush
        obtain ⟨hinteger, hfraction⟩ := foldl_of_dotted (d := d.push l) (by rw [hpush]) ls
        rw [hinteger, hfraction, List.takeWhile_cons, List.dropWhile_cons, hpoint, hpush]
        exact ⟨rfl, congrArg _ (if_neg hkind).symm⟩
      · have hpoint : l.isPoint = false := by simpa using hpoint
        have hpush := push_of_gap (d := d) hkind (.inr hpoint)
        rw [flush_of_not_dotted hd] at hpush
        obtain ⟨hinteger, hfraction⟩ := ih (d := d.push l) (by rw [hpush]; exact hd)
        rw [hinteger, hfraction, List.takeWhile_cons, List.dropWhile_cons, hpoint, hpush]
        exact ⟨(List.append_assoc _ _ _).trans (congrArg _ (if_neg hkind).symm), rfl⟩

/-- A word has as many letters in two parts as in one. -/
theorem foldl_splitCopula (d : Digits) (l : Lexeme) : l.splitCopula.foldl push d = d.push l := by
  rcases l.splitCopula_cases with hl | ⟨hkind, stem, copula, htext, -, -, hl⟩
  · rw [hl]
    rfl
  · have hletters : letters l = stem.countP Text.isLetter + copula.countP Text.isLetter := by
      rw [letters, htext, List.countP_append]
    have hword : ∀ text a b, (Lexeme.wordAt text a b).kind = .identifier := fun _ _ _ => rfl
    have hcount : ∀ text a b, letters (Lexeme.wordAt text a b) = text.countP Text.isLetter := by
      intro text a b
      simp [letters, Lexeme.wordAt]
    rw [hl, List.foldl_cons, List.foldl_cons, List.foldl_nil, push, hword, push, hword, push, hkind]
    dsimp only
    rw [hcount, hcount, hletters]
    obtain ⟨integer, fraction, pending, dotted, span⟩ := d
    cases span with
    | none => simp [Nat.add_assoc, Span.through, Lexeme.wordAt]
    | some span => simp [Nat.add_assoc, Span.through, Lexeme.wordAt]

/-- A word counts the same letters when it is split. -/
theorem foldl_flatMap_splitCopula (d : Digits) (ls : List Lexeme) :
    (ls.flatMap Lexeme.splitCopula).foldl push d = ls.foldl push d := by
  induction ls generalizing d with
  | nil => rfl
  | cons l ls ih => rw [List.flatMap_cons, List.foldl_append, foldl_splitCopula, ih, List.foldl_cons]

/-- The literal of a line, if there are digits before the decimal point. -/
theorem exists_finish (h : d.flush.integer ≠ []) (stop : Span) :
    ∃ span, d.finish stop = .ok (.literal span (.number d.flush.value)) := by
  refine ⟨d.flush.span.getD stop, ?_⟩
  rw [finish, if_neg (by simp [h])]

end Digits

/-! ### Lines after a copula -/

namespace Decimal

variable {w : Lexeme} {blanks words : List Lexeme}

open Digits (digitsFrom digitsFrom_none)

/-- A word adds to the digits in front of the point. -/
theorem ofLexemes_cons (hw : w.isPoint = false) (words : List Lexeme) :
    ofLexemes (w :: words) =
      ⟨wordDigits (w :: words.takeWhile fun l => !l.isPoint), (ofLexemes words).fraction⟩ := by
  simp [ofLexemes, hw]

/-- A line that begins with a word has a digit before the decimal point. -/
theorem integer_ne_nil (hw : w.kind = .identifier) (words : List Lexeme) :
    (ofLexemes (w :: words)).integer ≠ [] := by
  rw [ofLexemes_cons (Digits.isPoint_eq_false hw), ← digitsFrom_none, digitsFrom, if_pos hw]
  exact Digits.digitsFrom_some_ne_nil _ _

/-- The number of a line, from the digits that have been read of it. -/
theorem ofText?_text_ofLexemes (h : (ofLexemes words).integer ≠ []) :
    Number.ofText? (ofLexemes words).text = some (words.foldl Digits.push {}).flush.value := by
  obtain ⟨hinteger, hfraction⟩ := Digits.foldl_of_not_dotted (d := {}) rfl words
  have hdigits : ∀ x ∈ (ofLexemes words).integer ++ (ofLexemes words).fraction, x < 10 := by
    intro x hx
    rcases List.mem_append.mp hx with hx | hx
    · exact lt_of_mem_wordDigits hx
    · exact lt_of_mem_wordDigits hx
  rw [ofText?_text h hdigits, Digits.value, hinteger, hfraction, digitsFrom_none, digitsFrom_none]
  rfl

/-- What is skipped in front of the words makes no digit, as long as it is no point. -/
theorem ofLexemes_cons_of_isTrivia (hw : w.isTrivia) (hpoint : w.isPoint = false)
    (words : List Lexeme) : ofLexemes (w :: words) = ofLexemes words := by
  have hkind : w.kind ≠ .identifier := by
    intro hkind
    simp [Lexeme.isTrivia, hkind] at hw
  rw [ofLexemes_cons hpoint, ← digitsFrom_none, digitsFrom, if_neg hkind, digitsFrom_none]
  rfl

/-- With a decimal point among the blanks before it, a line has no digit before the decimal point. -/
theorem integer_of_point (hblanks : ∀ l ∈ blanks, l.isTrivia) (h : ∃ l ∈ blanks, l.isPoint) :
    (ofLexemes (blanks ++ words)).integer = [] := by
  induction blanks with
  | nil => simp at h
  | cons b blanks ih =>
    by_cases hpoint : b.isPoint
    · simp [ofLexemes, hpoint, wordDigits, runDigits]
    · rw [List.cons_append,
        ofLexemes_cons_of_isTrivia (hblanks b (by simp)) (by simpa using hpoint)]
      refine ih (fun l hl => hblanks l (List.mem_cons_of_mem b hl)) ?_
      obtain ⟨l, hl, hlpoint⟩ := h
      rcases List.mem_cons.mp hl with rfl | hl
      · contradiction
      · exact ⟨l, hl, hlpoint⟩

/-- Without one, blanks before a line make no difference. -/
theorem ofLexemes_append (hblanks : ∀ l ∈ blanks, l.isTrivia)
    (h : ∀ l ∈ blanks, l.isPoint = false) :
    ofLexemes (blanks ++ words) = ofLexemes words := by
  induction blanks with
  | nil => rfl
  | cons b blanks ih =>
    rw [List.cons_append, ofLexemes_cons_of_isTrivia (hblanks b (by simp)) (h b (by simp))]
    exact ih (fun l hl => hblanks l (List.mem_cons_of_mem b hl))
      fun l hl => h l (List.mem_cons_of_mem b hl)

theorem ofLexemes_append_iff (hblanks : ∀ l ∈ blanks, l.isTrivia) (hw : w.kind = .identifier) :
    ofLexemes (w :: words) = ofLexemes (blanks ++ w :: words) ↔
      ∀ l ∈ blanks, l.isPoint = false := by
  constructor
  · intro heq l hl
    refine Bool.eq_false_iff.mpr fun hpoint => integer_ne_nil hw words ?_
    rw [heq]
    exact integer_of_point hblanks ⟨l, hl, hpoint⟩
  · intro h
    exact (ofLexemes_append hblanks h).symm

end Decimal

namespace Statement

variable {target value : Node} {w stop : Lexeme} {ls blanks words : List Lexeme}

/-- **Digits are read up to the end of their line.** -/
theorem readAll_digits {d : Digits} (hwords : ∀ l ∈ words, l.isNewline = false)
    (hstop : stop.isNewline) (hvalue : (words.foldl Digits.push d).finish stop.span = .ok value) :
    readAll push (poetic target (.digits d)) (words ++ [stop]) =
      .ok (.done (assignment target value, [])) := by
  induction words generalizing d with
  | nil =>
    refine readAll_cons_done ?_ []
    have hfinish : d.finish stop.span = .ok value := hvalue
    simp [push, Poetic.push, hstop, hfinish, Except.map]
  | cons l words ih =>
    have hpush : (poetic target (.digits d)).push l =
        .ok (.next (poetic target (.digits (d.push l)))) := by
      simp [push, Poetic.push, hwords l (by simp), Except.map]
    rw [List.cons_append, readAll_cons_next hpush]
    exact ih (fun m hm => hwords m (List.mem_cons_of_mem l hm)) hvalue

/-- A line after a copula that begins with a word: the blanks before it are passed over, and the rest is
counted. -/
theorem readAll_poetic (hblanks : ∀ l ∈ blanks, l.isTrivia) (hw : w.kind = .identifier)
    (hconstant : w.word.bind Vocabulary.constant = none) (hwords : ∀ l ∈ words, l.isNewline = false)
    (hstop : stop.isNewline)
    (hvalue : ((w :: words).foldl Digits.push {}).finish stop.span = .ok value) :
    readAll push (poetic target .leading) (blanks ++ w :: words ++ [stop]) =
      .ok (.done (assignment target value, [])) := by
  induction blanks with
  | nil =>
    have hpush : (poetic target .leading).push w =
        .ok (.next (poetic target (.digits (Digits.push {} w)))) := by
      simp [push, Poetic.push, Poetic.start, Lexeme.isTrivia, Lexeme.isNewline, hw, hconstant,
        Except.map]
    rw [List.nil_append, List.cons_append, readAll_cons_next hpush]
    exact readAll_digits hwords hstop hvalue
  | cons b blanks ih =>
    have hpush : (poetic target .leading).push b = .ok (.next (poetic target .leading)) := by
      simp [push, Poetic.push, hblanks b (by simp), Except.map]
    rw [List.cons_append, List.cons_append, readAll_cons_next hpush]
    exact ih fun l hl => hblanks l (List.mem_cons_of_mem b hl)

/-- So is the line after contracted copulas have been taken off the words. -/
theorem readAll_poetic_flatMap (hblanks : ∀ l ∈ blanks, l.isTrivia) (hw : w.kind = .identifier)
    (hconstant : ∀ m ∈ w.splitCopula, m.word.bind Vocabulary.constant = none)
    (hwords : ∀ l ∈ w :: words, l.isNewline = false) (hstop : stop.isNewline)
    (hvalue : ((w :: words).foldl Digits.push {}).finish stop.span = .ok value) :
    readAll push (poetic target .leading)
        ((blanks ++ w :: words ++ [stop]).flatMap Lexeme.splitCopula) =
      .ok (.done (assignment target value, [])) := by
  have hwhole : ∀ ls : List Lexeme, (∀ l ∈ ls, l.kind ≠ .identifier) →
      ls.flatMap Lexeme.splitCopula = ls := by
    intro ls hls
    calc ls.flatMap Lexeme.splitCopula
      _ = ls.flatMap fun l => [l] := List.flatMap_congr fun l hl => if_neg (hls l hl)
      _ = ls := List.flatMap_singleton' ls
  -- the first word may be in two parts, and then the first of them begins the number
  have hfirst : ∃ m ms, w.splitCopula = m :: ms ∧ m.kind = .identifier := by
    rcases w.splitCopula_cases with hsplit | ⟨-, stem, copula, -, -, -, hsplit⟩
    · exact ⟨w, [], hsplit, hw⟩
    · exact ⟨_, _, hsplit, rfl⟩
  obtain ⟨m, ms, hsplit, hm⟩ := hfirst
  have hlexemes : (blanks ++ w :: words ++ [stop]).flatMap Lexeme.splitCopula =
      blanks ++ m :: (ms ++ words.flatMap Lexeme.splitCopula) ++ [stop] := by
    rw [List.flatMap_append, List.flatMap_append, List.flatMap_cons, hsplit, hwhole blanks, hwhole [stop]]
    · rfl
    · simpa using fun hkind => by simp [Lexeme.isNewline, hkind] at hstop
    · intro l hl hkind
      simpa [Lexeme.isTrivia, hkind] using hblanks l hl
  have hcounted : (m :: (ms ++ words.flatMap Lexeme.splitCopula)).foldl Digits.push {} =
      (w :: words).foldl Digits.push {} := by
    rw [← Digits.foldl_flatMap_splitCopula {} (w :: words), List.flatMap_cons, hsplit]
    rfl
  rw [hlexemes]
  refine readAll_poetic hblanks hm (hconstant m (by simp [hsplit])) ?_ hstop ?_
  · intro l hl
    have hmem : l ∈ (w :: words).flatMap Lexeme.splitCopula := by
      rw [List.flatMap_cons, hsplit]
      exact List.mem_cons_of_mem m hl
    obtain ⟨x, hx, hlx⟩ := List.mem_flatMap.mp hmem
    rw [Lexeme.isNewline_of_mem_splitCopula hlx]
    exact hwords x hx
  · rw [hcounted]
    exact hvalue

/-- **A poetic number is the number that its line writes, without the blanks before the first word.** In
a line after a copula, let the first lexeme that is no blank and no comment be a word, and neither it nor
what is left of it without `'s` or `'re` a word for a constant. Then the literal is the number whose
decimal notation the line writes from this word on, and it is the same after the contracted copulas have
been taken off the words. This is what the whole line writes exactly if none of the blanks before the
word begins with a full stop. -/
theorem poetic_number (target : Node) (hls : ∀ l ∈ ls, l.isNewline = false) (hstop : stop.isNewline)
    (hfirst : ls.find? (fun l => !l.isTrivia) = some w) (hw : w.kind = .identifier)
    (hconstant : ∀ m ∈ w :: w.splitCopula, m.word.bind Vocabulary.constant = none) :
    ∃ span n,
      readAll push (poetic target .leading) (ls ++ [stop]) =
        .ok (.done (assignment target (.literal span (.number n)), [])) ∧
      readAll push (poetic target .leading) ((ls ++ [stop]).flatMap Lexeme.splitCopula) =
        .ok (.done (assignment target (.literal span (.number n)), [])) ∧
      Number.ofText? (Decimal.ofLexemes (ls.dropWhile Lexeme.isTrivia)).text = some n ∧
      (Decimal.ofLexemes (ls.dropWhile Lexeme.isTrivia) = Decimal.ofLexemes ls ↔
        ∀ l ∈ ls.takeWhile Lexeme.isTrivia, l.isPoint = false) := by
  -- the line is its first word, with blanks before it and all else after it
  obtain ⟨hwtrivia, blanks, words, rfl, hblanks⟩ := List.find?_eq_some_iff_append.mp hfirst
  have hblanks : ∀ l ∈ blanks, l.isTrivia := by simpa using hblanks
  have hwtrivia : w.isTrivia = false := by simpa using hwtrivia
  have hdrop : (blanks ++ w :: words).dropWhile Lexeme.isTrivia = w :: words := by
    rw [List.dropWhile_append_of_pos hblanks, List.dropWhile_cons, hwtrivia]
    rfl
  have htake : (blanks ++ w :: words).takeWhile Lexeme.isTrivia = blanks := by
    rw [List.takeWhile_append_of_pos hblanks, List.takeWhile_cons, hwtrivia]
    exact List.append_nil blanks
  have hwords : ∀ l ∈ w :: words, l.isNewline = false := fun l hl =>
    hls l (List.mem_append_right blanks hl)
  have hnumber := Decimal.ofText?_text_ofLexemes (Decimal.integer_ne_nil hw words)
  obtain ⟨span, hfinish⟩ : ∃ span, ((w :: words).foldl Digits.push {}).finish stop.span =
      .ok (.literal span (.number ((w :: words).foldl Digits.push {}).flush.value)) := by
    refine Digits.exists_finish ?_ stop.span
    rw [(Digits.foldl_of_not_dotted rfl (w :: words)).1, Digits.digitsFrom_none]
    exact Decimal.integer_ne_nil hw words
  generalize ((w :: words).foldl Digits.push {}).flush.value = n at hnumber hfinish
  refine ⟨span, n, ?_, ?_, ?_, ?_⟩
  · exact readAll_poetic hblanks hw (hconstant w (by simp))
      (fun l hl => hwords l (List.mem_cons_of_mem w hl)) hstop hfinish
  · exact readAll_poetic_flatMap hblanks hw (fun m hm => hconstant m (List.mem_cons_of_mem w hm))
      hwords hstop hfinish
  · rw [hdrop]
    exact hnumber
  · rw [hdrop, htake]
    exact Decimal.ofLexemes_append_iff hblanks hw

/-- In `x is a lonely. hunter's dream` the words write 16.75. -/
theorem poetic_number_hunter : ∃ span n,
    readAll push (poetic (.var .origin "x") .leading) (Lexeme.lex " a lonely. hunter's dream") =
      .ok (.done (assignment (.var .origin "x") (.literal span (.number n)), [])) ∧
    Number.ofText? "16.75" = some n := by
  have hline : Lexeme.lex " a lonely. hunter's dream" =
      (Lexeme.lex " a lonely. hunter's dream").dropLast ++
        [⟨.endOfInput, "", none, ⟨⟨1, 25⟩, ⟨1, 25⟩⟩⟩] := by
    decide +kernel
  have hfirst : (Lexeme.lex " a lonely. hunter's dream").dropLast.find? (fun l => !l.isTrivia) =
      some ⟨.identifier, "a", none, ⟨⟨1, 1⟩, ⟨1, 2⟩⟩⟩ := by
    decide +kernel
  have hstop : (⟨.endOfInput, "", none, ⟨⟨1, 25⟩, ⟨1, 25⟩⟩⟩ : Lexeme).isNewline := rfl
  obtain ⟨span, n, hread, -, hnumber, -⟩ :=
    poetic_number (.var .origin "x") (by decide +kernel) hstop hfirst rfl (by decide +kernel)
  have htext : (Decimal.ofLexemes ((Lexeme.lex " a lonely. hunter's dream").dropLast.dropWhile
      Lexeme.isTrivia)).text = "16.75" := by
    decide +kernel
  rw [htext] at hnumber
  rw [hline]
  exact ⟨span, n, hread, hnumber⟩

/-- The literal that a statement assigns. -/
def assigned? : Node → Option Literal
  | .assign _ _ (.literal _ value) => some value
  | _ => none

/-- A full stop right after the copula is lost: `x is. hello` assigns 5, though the line writes 0.5. -/
theorem point_after_copula_lost :
    (Program.parse "x is. hello").failure = none ∧
    (Program.parse "x is. hello").nodes.map assigned? = [some (.number (.ofNat 5))] ∧
    (Decimal.ofLexemes ((Lexeme.lex "x is. hello").drop 3)).text = "0.5" ∧
    Number.ofText? "0.5" ≠ some (.ofNat 5) :=
  ⟨by decide +kernel, by decide +kernel, by decide +kernel, by decide +kernel⟩

end Statement

end Reading

end Ballad
