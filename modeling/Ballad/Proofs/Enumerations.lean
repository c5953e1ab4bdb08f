import Ballad.Proofs.Arguments
import Ballad.Proofs.Reading.LineEnds
import Mathlib.Data.List.Forall2

/-!
# Lists keep their items

A list of expressions has commas and ampersands between its items, each of which an `and` may follow;
and after the first of them an `and` alone separates items too. Before, it is an operator of the first
item. So as long as no other item has an `and` in it, there is one way to read the list.

- `Grammar.Separator`, `Grammar.Enumeration`: what stands between two items, and lists as lexemes.
- `Listing.Reads`: lexemes that take one list to another.
- `Enumeration.reads`: the invariant of the reading. All items but the last are nodes, and the last one
  has been read to its end.
- `enumeration_keeps_items`: the end of the line gives the list of what the items are on their own.
-/

namespace Ballad

open Reading Reading.Phrase

namespace Grammar

/-- What stands between two items of a list, where `delimited` says whether there has been a comma or
an ampersand before. -/
inductive Separator (delimited : Bool) : List Lexeme → Prop where
  | delimiter {l : Lexeme} (hl : l.kind = .delimiter) : Separator delimited [l]
  | delimiterAnd {l a : Lexeme} (hl : l.kind = .delimiter) (ha : a.word = some "and") :
      Separator delimited [l, a]
  | and {a : Lexeme} (hd : delimited = true) (ha : a.word = some "and") : Separator delimited [a]

/-- Lists with their items, among any blanks and comments. Only the first item may have an `and` in
it. -/
inductive Enumeration : List Lexeme → List (List Lexeme) → Prop where
  | first {ts : List Lexeme} {items : List Item} (hitem : Chain (significant ts) items) :
      Enumeration ts [ts]
  | next {ls ss ts : List Lexeme} {es : List (List Lexeme)} {items : List Item}
      (h : Enumeration ls es) (hsep : Separator (1 < es.length) (significant ss))
      (hitem : Chain (significant ts) items)
      (hand : ∀ l ∈ significant ts, l.word ≠ some "and") :
      Enumeration (ls ++ (ss ++ ts)) (es ++ [ts])

/-! ### The lexemes of an expression -/

variable {ls : List Lexeme} {n : Node}

theorem kind_ne_delimiter_of_word {l : Lexeme} {word : String} (h : l.word = some word) :
    l.kind ≠ .delimiter := by
  rw [(Lexeme.kind_of_word h).1]
  decide

theorem ProperNoun.kind_ne {name : String} {span : Span} (h : ProperNoun ls name span) :
    ∀ l ∈ ls, l.kind ≠ .delimiter := by
  have hword : ∀ l : Lexeme, l.isProperWord → l.kind ≠ .delimiter := by
    intro l hl
    obtain ⟨-, word, hword, -⟩ := word_of_isProperWord hl
    exact kind_ne_delimiter_of_word hword
  induction h with
  | first hl => exact List.forall_mem_singleton.mpr (hword _ hl)
  | next _ hl ih => exact List.forall_mem_append.mpr ⟨ih, List.forall_mem_singleton.mpr (hword _ hl)⟩

theorem Primary.kind_ne (h : Primary ls n) : ∀ l ∈ ls, l.kind ≠ .delimiter := by
  cases h with
  | number hl hx => exact List.forall_mem_singleton.mpr (by rw [hl]; decide)
  | string hl => exact List.forall_mem_singleton.mpr (by rw [hl]; decide)
  | constant hl _ | pronoun hl _ | simple hl _ _ =>
    exact List.forall_mem_singleton.mpr (kind_ne_delimiter_of_word hl)
  | common ha _ hl =>
    exact List.forall_mem_cons.mpr ⟨kind_ne_delimiter_of_word ha,
      List.forall_mem_singleton.mpr (kind_ne_delimiter_of_word hl)⟩
  | proper hls => exact hls.kind_ne

theorem Subject.kind_ne (h : Subject ls n) : ∀ l ∈ ls, l.kind ≠ .delimiter := by
  induction h with
  | primary h => exact h.kind_ne
  | index _ hl hkey ih =>
    exact List.forall_mem_append.mpr ⟨ih,
      List.forall_mem_cons.mpr ⟨kind_ne_delimiter_of_word hl, hkey.kind_ne⟩⟩

theorem Term.kind_ne (h : Term ls n) : ∀ l ∈ ls, l.kind ≠ .delimiter := by
  induction h with
  | subject h => exact h.kind_ne
  | negation hl _ ih => exact List.forall_mem_cons.mpr ⟨kind_ne_delimiter_of_word hl, ih⟩

theorem Spelling.kind_ne {op : Operator} (h : Spelling ls op) : ∀ l ∈ ls, l.kind ≠ .delimiter := by
  have hcopula : ∀ l : Lexeme, l.isCopula → l.kind ≠ .delimiter := by
    intro l hl
    obtain ⟨word, hword, -⟩ := (Option.any_eq_true _ _).mp hl
    exact kind_ne_delimiter_of_word hword
  cases h with
  | connective hl _ | negatedCopula hl _ => simpa using kind_ne_delimiter_of_word hl
  | copula hl => simpa using hcopula _ hl
  | copulaNot hl hm => simpa using ⟨hcopula _ hl, kind_ne_delimiter_of_word hm⟩
  | strict hl hm _ ht =>
    simpa using ⟨hcopula _ hl, kind_ne_delimiter_of_word hm, kind_ne_delimiter_of_word ht⟩
  | inclusive hl ha hm _ hb =>
    simpa using ⟨hcopula _ hl, kind_ne_delimiter_of_word ha, kind_ne_delimiter_of_word hm,
      kind_ne_delimiter_of_word hb⟩

/-- No expression has a delimiter in it. -/
theorem Chain.kind_ne {items : List Item} (h : Chain ls items) : ∀ l ∈ ls, l.kind ≠ .delimiter := by
  induction h with
  | term hn => exact hn.kind_ne
  | next _ hop hn _ ih =>
    exact List.forall_mem_append.mpr ⟨ih, List.forall_mem_append.mpr ⟨hop.kind_ne, hn.kind_ne⟩⟩

/-- An expression is read to its end. -/
theorem Chain.whole {items : List Item} (h : Chain ls items) :
    ∃ q n, Reads 0 (empty .value) ls q ∧ Whole .value 0 q n := by
  obtain ⟨fs, p, n, hreads, hwhole, -⟩ := h.reads
  exact ⟨_, _, hreads, whole_plug hwhole (Nat.zero_le _) fun _ _ => Nat.zero_le _⟩

end Grammar

namespace Reading

open Grammar

/-- The end of a line ends an expression that has been read. -/
theorem Phrase.Whole.take_newline {mode : Mode} {b : Nat} {q : Phrase} {n : Node} {stop : Lexeme}
    (h : Whole mode b q n) (hstop : stop.isNewline) : q.take stop = .ok (.yield n stop) :=
  h.take_yield (Lexeme.isProperWord_of_isNewline hstop) (of?_of_isNewline hstop .value)

namespace Listing

variable {list list' list'' : Listing} {l : Lexeme} {ls ms tokens : List Lexeme}

/-- Lexemes that take one list to another. -/
inductive Reads : Listing → List Lexeme → Listing → Prop where
  | nil {list : Listing} : Reads list [] list
  | cons {list list' list'' : Listing} {l : Lexeme} {ls : List Lexeme}
      (hpush : list.push l = .ok (.next list')) (hrest : Reads list' ls list'') :
      Reads list (l :: ls) list''

theorem Reads.append (h : Reads list ls list') (h' : Reads list' ms list'') :
    Reads list (ls ++ ms) list'' := by
  induction h with
  | nil => exact h'
  | cons hpush _ ih => exact .cons hpush (ih h')

theorem Reads.readAll (h : Reads list ls list') (rest : List Lexeme) :
    Reading.readAll push list (ls ++ rest) = Reading.readAll push list' rest := by
  induction h with
  | nil => rfl
  | cons hpush _ ih =>
    rw [List.cons_append, readAll_cons_next hpush]
    exact ih

theorem push_trivia (h : l.isTrivia) : list.push l = .ok (.next list) := by
  rw [push, if_pos h]

/-- Blanks and comments are passed over. -/
theorem reads_of_significant (h : Reads list (significant tokens) list') :
    Reads list tokens list' := by
  induction tokens generalizing list with
  | nil => exact h
  | cons l tokens ih =>
    by_cases hl : l.isTrivia
    · rw [significant, List.filter_cons_of_neg (by simp [hl])] at h
      exact .cons (push_trivia hl) (ih h)
    · rw [significant, List.filter_cons_of_pos (by simp [hl])] at h
      cases h with
      | cons hpush hrest => exact .cons hpush (ih hrest)

theorem push_of_separates {items : List Node} {delimited : Bool} {q : Phrase}
    (h : separates delimited q l = false) (htrivia : l.isTrivia = false) {r : Phrase}
    (htake : q.take l = .ok (.next r)) :
    (⟨items, delimited, q⟩ : Listing).push l = .ok (.next ⟨items, delimited, r⟩) := by
  rw [push, htrivia, pushItem, h, htake]
  rfl

/-- The lexemes of an item go to the current item, if none of them separates items. -/
theorem reads_item {items : List Node} {delimited : Bool} {b : Nat} {p q : Phrase}
    (h : Phrase.Reads b p ls q) (hls : ∀ l ∈ ls, l.isTrivia = false ∧ l.kind ≠ .delimiter)
    (hand : delimited = true → ∀ l ∈ ls, l.word ≠ some "and") :
    Reads ⟨items, delimited, p⟩ ls ⟨items, delimited, q⟩ := by
  induction h with
  | nil => exact .nil
  | @cons p q r l ls htake _ _ ih =>
    obtain ⟨⟨htrivia, hkind⟩, hrest⟩ := List.forall_mem_cons.mp hls
    have hseparates : separates delimited p l = false := by
      cases delimited with
      | false => exact separates_eq_false hkind
      | true =>
        have hword := hand rfl l List.mem_cons_self
        simp [separates, hkind, Lexeme.isWord, hword]
    exact .cons (push_of_separates hseparates htrivia htake)
      (ih hrest fun hd m hm => hand hd m (List.mem_cons_of_mem l hm))

/-- What separates items ends an item that has been read. -/
theorem push_separating {items : List Node} {delimited : Bool} {b : Nat} {q : Phrase} {n : Node}
    (hq : Whole .value b q n) (htrivia : l.isTrivia = false)
    (h : separates delimited q l = true) :
    (⟨items, delimited, q⟩ : Listing).push l = .ok (.next ⟨items ++ [n], true, .empty .value⟩) := by
  rw [push, htrivia, pushItem, h, hq.complete, hq.finish]
  rfl

/-- An `and` after a delimiter changes nothing. -/
theorem push_and {items : List Node} (hl : l.word = some "and") (hitems : items ≠ []) :
    (⟨items, true, .empty .value⟩ : Listing).push l =
      .ok (.next ⟨items, true, .empty .value⟩) := by
  have htrivia : l.isTrivia = false := not_isTrivia_of_word hl
  have hword : l.isWord "and" = true := by
    rw [Lexeme.isWord, hl]
    rfl
  have hseparates : separates true (.empty .value) l = true := by
    simp [separates, hword, Phrase.isEmpty]
  have hsome : items.isEmpty = false := by simpa using hitems
  rw [push, htrivia, pushItem, hseparates, hword, hsome]
  rfl

theorem reads_separator {delimited : Bool} {b : Nat} {q : Phrase} {n : Node}
    (h : Separator delimited ls) (hq : Whole .value b q n) (items : List Node) :
    Reads ⟨items, delimited, q⟩ ls ⟨items ++ [n], true, .empty .value⟩ := by
  have hdelimiter : ∀ l : Lexeme, l.kind = .delimiter →
      (⟨items, delimited, q⟩ : Listing).push l =
        .ok (.next ⟨items ++ [n], true, .empty .value⟩) := by
    intro l hl
    exact push_separating hq (by simp [Lexeme.isTrivia, hl]) (by simp [separates, hl])
  cases h with
  | delimiter hl => exact .cons (hdelimiter _ hl) .nil
  | delimiterAnd hl ha => exact .cons (hdelimiter _ hl) (.cons (push_and ha (by simp)) .nil)
  | @and a hd ha =>
    have hseparates : separates delimited q a = true := by
      simp [separates, hd, Lexeme.isWord, ha, hq.complete]
    exact .cons (push_separating hq (not_isTrivia_of_word ha) hseparates) .nil

end Listing

/-- What an expression becomes on its own, if the line ends after it. -/
def Phrase.Becomes (stop : Lexeme) (tokens : List Lexeme) (n : Node) : Prop :=
  readAll push (Phrase.empty .value) (tokens ++ [stop]) = .ok (.yield (n, []) stop)

theorem Phrase.becomes_of_whole {b : Nat} {tokens : List Lexeme} {q : Phrase} {n : Node}
    {stop : Lexeme} (hreads : Phrase.Reads b (.empty .value) (significant tokens) q)
    (hq : Whole .value b q n) (hstop : stop.isNewline) : Becomes stop tokens n := by
  rw [Becomes, hreads.readAll]
  refine readAll_cons_yield ?_ []
  rw [push_newline hstop, hq.take_newline hstop]

end Reading

namespace Grammar

theorem not_isTrivia_of_mem_significant {l : Lexeme} {tokens : List Lexeme}
    (h : l ∈ significant tokens) : l.isTrivia = false := by
  simpa using (List.mem_filter.mp h).2

/-- An item is read as it would be on its own. -/
theorem Chain.reads_item {ts : List Lexeme} {cs : List Item} {stop : Lexeme}
    (h : Chain (significant ts) cs) (hstop : stop.isNewline) (items : List Node) (delimited : Bool)
    (hand : delimited = true → ∀ l ∈ significant ts, l.word ≠ some "and") :
    ∃ q n, Listing.Reads ⟨items, delimited, .empty .value⟩ ts ⟨items, delimited, q⟩ ∧
      Whole .value 0 q n ∧ Becomes stop ts n := by
  obtain ⟨q, n, hreads, hq⟩ := h.whole
  have hls : ∀ l ∈ significant ts, l.isTrivia = false ∧ l.kind ≠ .delimiter :=
    fun l hl => ⟨not_isTrivia_of_mem_significant hl, h.kind_ne l hl⟩
  exact ⟨q, n, Listing.reads_of_significant (Listing.reads_item hreads hls hand), hq,
    becomes_of_whole hreads hq hstop⟩

/-- **After any number of items**, all but the last of them are nodes, the last one has been read to its
end, and each is what it is on its own. -/
theorem Enumeration.reads {tokens : List Lexeme} {es : List (List Lexeme)} {stop : Lexeme}
    (h : Enumeration tokens es) (hstop : stop.isNewline) :
    ∃ items q n, Listing.Reads .empty tokens ⟨items, decide (1 < es.length), q⟩ ∧
      Whole .value 0 q n ∧ List.Forall₂ (Becomes stop) es (items ++ [n]) := by
  induction h with
  | @first ts cs hitem =>
    obtain ⟨q, n, hreads, hq, hn⟩ := hitem.reads_item hstop [] false (by simp)
    exact ⟨[], q, n, hreads, hq, .cons hn .nil⟩
  | @next ls ss ts es cs h hsep hitem hand ih =>
    obtain ⟨items, p, m, hreads, hp, hall⟩ := ih
    have hseparator := Listing.reads_of_significant (Listing.reads_separator hsep hp items)
    obtain ⟨q, n, hlast, hq, hn⟩ := hitem.reads_item hstop (items ++ [m]) true fun _ => hand
    have hlength : decide (1 < (es ++ [ts]).length) = true := by
      have := hall.length_eq
      simp at this ⊢
      omega
    refine ⟨items ++ [m], q, n, ?_, hq, List.rel_append hall (.cons hn .nil)⟩
    rw [hlength]
    exact hreads.append (hseparator.append hlast)

/-- **A list keeps every item once and in order.** The lexemes of a list and the end of the line make a
new list end in front of the end of the line, which is handed back. Its items are what the expressions are on their own, one
for each and in the same order. -/
theorem enumeration_keeps_items {tokens : List Lexeme} {es : List (List Lexeme)} {stop : Lexeme}
    (h : Enumeration tokens es) (hstop : stop.isNewline) :
    ∃ items : List Node,
      readAll Listing.push .empty (tokens ++ [stop]) =
        .ok (.yield (.list (Node.spanOf items) items, []) stop) ∧
      List.Forall₂ (fun e n => readAll Phrase.push (.empty .value) (e ++ [stop]) =
        .ok (.yield (n, []) stop)) es items := by
  obtain ⟨items, q, n, hreads, hq, hall⟩ := h.reads hstop
  refine ⟨items ++ [n], ?_, hall⟩
  rw [hreads.readAll]
  refine readAll_cons_yield ?_ []
  rw [Listing.push_newline hstop, hq.take_newline hstop]
  rfl

/-- An `and` as an operator, after a comma and on its own. -/
theorem enumeration_keeps_items_line : ∃ (es : List (List Lexeme)) (items : List Node)
    (stop : Lexeme), es.length = 4 ∧
      readAll Listing.push .empty (Lexeme.lex "x and y, and z & nothing and not w\n") =
        .ok (.yield (.list (Node.spanOf items) items, []) stop) ∧
      List.Forall₂ (fun e n => readAll Phrase.push (.empty .value) (e ++ [stop]) =
        .ok (.yield (n, []) stop)) es items := by
  let line := Lexeme.lex "x and y, and z & nothing and not w\n"
  let cut : Nat → Nat → List Lexeme := fun i j => (line.take j).drop i
  let stop : Lexeme := ⟨.newline, "\n", none, ⟨⟨1, 34⟩, ⟨2, 0⟩⟩⟩
  -- the items and what stands between them
  have hboth : significant (cut 0 5) =
      [wordInFirstLine "x" 0, wordInFirstLine "and" 2, wordInFirstLine "y" 6] := by decide +kernel
  have hcomma : significant (cut 5 9) =
      [⟨.delimiter, ",", none, ⟨⟨1, 7⟩, ⟨1, 8⟩⟩⟩, wordInFirstLine "and" 9] := by decide +kernel
  have hlone : significant (cut 9 11) = [wordInFirstLine "z" 13] := by decide +kernel
  have hampersand : significant (cut 11 13) =
      [⟨.delimiter, "&", none, ⟨⟨1, 15⟩, ⟨1, 16⟩⟩⟩] := by decide +kernel
  have hnothing : significant (cut 13 15) = [wordInFirstLine "nothing" 17] := by decide +kernel
  have hand : significant (cut 15 17) = [wordInFirstLine "and" 25] := by decide +kernel
  have hnot : significant (cut 17 20) = [wordInFirstLine "not" 29, wordInFirstLine "w" 33] := by
    decide +kernel
  have hline : cut 0 5 ++ (cut 5 9 ++ cut 9 11) ++ (cut 11 13 ++ cut 13 15) ++
      (cut 15 17 ++ cut 17 20) ++ [stop] = line := by decide +kernel
  have hvariable : ∀ l : Lexeme, l.word.any (!Vocabulary.isReserved ·) → l.isCapitalized = false →
      ∃ n, Term [l] n := by
    intro l hl hcap
    obtain ⟨word, hword, hres⟩ := (Option.any_eq_true _ _).mp hl
    exact ⟨_, .subject (.primary (.simple hword (by simpa using hres) hcap))⟩
  obtain ⟨x, hx⟩ := hvariable (wordInFirstLine "x" 0) (by decide) (by decide)
  obtain ⟨y, hy⟩ := hvariable (wordInFirstLine "y" 6) (by decide) (by decide)
  obtain ⟨z, hz⟩ := hvariable (wordInFirstLine "z" 13) (by decide) (by decide)
  obtain ⟨w, hw⟩ := hvariable (wordInFirstLine "w" 33) (by decide) (by decide)
  have hapart : Apart [wordInFirstLine "and" 2] [wordInFirstLine "y" 6] := by
    rintro l m hl hcopula
    obtain rfl := (List.cons.inj hl).1
    exact absurd hcopula (by decide)
  have hchain := (Chain.term hx).next (.connective rfl rfl) hy hapart
  rw [List.singleton_append, List.singleton_append, ← hboth] at hchain
  have hchain₂ := Chain.term hz
  rw [← hlone] at hchain₂
  have hconstant : Primary [wordInFirstLine "nothing" 17] (.literal _ .null) := .constant rfl rfl
  have hchain₃ := Chain.term (.subject (.primary hconstant))
  rw [← hnothing] at hchain₃
  have hchain₄ := Chain.term
    (.negation (show (wordInFirstLine "not" 29).word = some "not" from rfl) hw)
  rw [← hnot] at hchain₄
  have hfirst := Enumeration.first hchain
  have hsecond := hfirst.next (by rw [hcomma]; exact .delimiterAnd rfl rfl) hchain₂
    (by rw [hlone]; decide)
  have hthird := hsecond.next (by rw [hampersand]; exact .delimiter rfl) hchain₃
    (by rw [hnothing]; decide)
  have hfourth := hthird.next (by rw [hand]; exact .and rfl rfl) hchain₄
    (by rw [hnot]; decide)
  obtain ⟨items, hpush, hitems⟩ := enumeration_keeps_items hfourth (show stop.isNewline by decide)
  rw [hline] at hpush
  exact ⟨_, items, stop, rfl, hpush, hitems⟩

end Grammar

end Ballad
