import Ballad.Proofs.Boundaries
import Ballad.Proofs.Comments
import Ballad.Proofs.Concatenation
import Ballad.Proofs.Fragments
import Ballad.Proofs.Reading.Exchange

/-!
# Empty lines at the end

The end of a source closes every block that is open. So do empty lines, one block after the other, and
with the same result: a source may be followed by as many of them as one likes.

- `Piece.isOpen`: a comment or a string that the source ends in. It would take up what follows.
- `Piece.cut_append_feeds`: line feeds after a source without one are pieces of their own.
- `Lexeme.split_append_feeds`: all they do to the lexemes is to replace the last one, which ends the last
  line, by some more line ends.
- `Line.Settles`: what an empty line makes of the open blocks comes to the same as closing them.
- `Program.read_feeds`: as long as nothing of a line has been read, empty lines change nothing.
-/

namespace Ballad

namespace Piece

variable {cs b : List Char}

/-! ### One piece -/

/-- Whether the text of a string after its opening quote has the quote that closes it. -/
def closes : List Char → Bool
  | [] => false
  | '"' :: _ => true
  | '\\' :: _ :: cs => closes cs
  | _ :: cs => closes cs

/-- Whether a piece is a comment or a string that is not closed. -/
def isOpen (p : Piece) : Bool :=
  match p.kind with
  | .comment => p.text.count '(' != p.text.count ')'
  | .string => !closes p.text.tail
  | _ => false

/-- A comment that is closed does not go on. -/
theorem comment_append_closed (hrest : (comment 1 cs).2 = [])
    (hclosed : balance ('(' :: (comment 1 cs).1) = 0) :
    comment 1 (cs ++ b) = ((comment 1 cs).1, b) := by
  have hcs := comment_append 1 cs
  rw [hrest, List.append_nil] at hcs
  have htext := comment_append 1 (cs ++ b)
  -- of two beginnings that balance one is a part of the other, so they are the same
  have hsame : (comment 1 (cs ++ b)).1 = cs := by
    rcases List.prefix_or_prefix_of_prefix ⟨_, htext⟩ (List.prefix_append cs b) with hshorter | hlonger
    · by_cases hnil : (comment 1 (cs ++ b)).2 = []
      · rw [hnil, List.append_nil] at htext
        rw [htext] at hshorter ⊢
        exact hshorter.eq_of_length_le (by simp)
      · have hpart : (comment 1 (cs ++ b)).1 <+: (comment 1 cs).1 := by rwa [hcs]
        exact (eq_comment_of_balance hpart (balance_comment hnil)).trans hcs
    · rw [hcs] at hclosed
      exact (eq_comment_of_balance hlonger hclosed).symm
  rw [hsame] at htext
  exact Prod.ext (hsame.trans hcs.symm) (List.append_cancel_left htext)

/-- Nor does a string. -/
theorem string_append_closed (hrest : (string cs).2 = []) (hclosed : closes (string cs).1) :
    string (cs ++ b) = ((string cs).1, b) := by
  fun_induction string cs with
  | case1 => cases hclosed
  | case2 cs =>
    rw [List.cons_append, string, show cs = [] from hrest]
    rfl
  | case3 c cs text rest heq ih =>
    rw [heq] at ih
    rw [List.cons_append, List.cons_append, string, ih hrest hclosed]
  | case4 c cs hquote hescape text rest heq ih =>
    rw [heq] at ih
    cases cs with
    | nil =>
      -- nothing follows, so there is no quote
      rw [string] at heq
      cases heq
      rw [closes] at hclosed
      · cases hclosed
      · exact hquote
      · intro d ds _ hds
        cases hds
    | cons d ds =>
      have hslash : c ≠ '\\' := fun hc => hescape d ds hc rfl
      rw [closes] at hclosed
      · rw [List.cons_append, List.cons_append, string]
        · rw [← List.cons_append, ih hrest hclosed]
        · exact hquote
        · exact fun _ _ hc _ => hslash hc
      · exact hquote
      · exact fun _ _ hc _ => hslash hc

theorem NumberState.next_append_feed (s : NumberState) (c : Char) (cs b : List Char) :
    s.next c (cs ++ '\n' :: b) = s.next c cs := by
  have hdetached : Detached ('\n' :: b) := by
    intro d hd
    obtain rfl := Option.some.inj hd
    decide
  rw [next, next, exponentFollows_append_detached hdetached]

theorem number_append_feed (s : NumberState) (hrest : (number s cs).2 = []) (b : List Char) :
    number s (cs ++ '\n' :: b) = ((number s cs).1, '\n' :: b) := by
  induction cs generalizing s with
  | nil => simp [number, NumberState.next]
  | cons c cs ih =>
    rw [number] at hrest
    rw [List.cons_append, number, number, s.next_append_feed]
    cases hs : s.next c cs with
    | none =>
      rw [hs] at hrest
      cases hrest
    | some t =>
      rw [hs] at hrest
      dsimp only
      rw [ih t hrest]

theorem spanWhile_append_feed {p : Char → Bool} (hp : p '\n' = false)
    (hrest : (spanWhile p cs).2 = []) (b : List Char) :
    spanWhile p (cs ++ '\n' :: b) = ((spanWhile p cs).1, '\n' :: b) := by
  refine spanWhile_append_left hrest fun c hc => ?_
  obtain rfl := Option.some.inj hc
  exact hp

/-- A piece that is not open does not go on with a line feed, unless it is a carriage return. -/
theorem first_append_feed {c : Char} (hreturn : (c :: cs).getLast? ≠ some '\r')
    (hrest : (first c cs).2 = []) (hclosed : (first c cs).1.isOpen = false) (b : List Char) :
    first c (cs ++ '\n' :: b) = ((first c cs).1, '\n' :: b) := by
  cases rule c with
  | comment hc h =>
    subst hc
    have hbalance : balance ('(' :: (comment 1 cs).1) = 0 := by
      rw [balance_eq_zero_iff]
      simpa [isOpen, first, h] using hclosed
    rw [first, h] at hrest
    rw [first, first, h, h, comment_append_closed hrest hbalance]
  | string h =>
    have hquote : closes (string cs).1 := by
      simpa [isOpen, first, h] using hclosed
    rw [first, h] at hrest
    rw [first, first, h, h, string_append_closed hrest hquote]
  | run kind p _ hline h =>
    rw [first, h] at hrest
    rw [first, first, h, h, spanWhile_append_feed hline.1 hrest]
  | number h =>
    rw [first, h] at hrest
    rw [first, first, h, h, number_append_feed _ hrest]
  | lineFeed _ h | alone kind _ h =>
    rw [first, h] at hrest
    rw [first, first, h, h, show cs = [] from hrest]
    rfl
  | carriageReturn hc hfeed h =>
    cases cs with
    | nil => exact absurd (congrArg some hc) hreturn
    | cons d ds =>
      by_cases hd : d = '\n'
      · subst hd
        rw [first, hfeed] at hrest
        rw [List.cons_append, first, first, hfeed, hfeed, show ds = [] from hrest]
        rfl
      · rw [first, h _ (by simpa using hd)] at hrest
        cases hrest

/-! ### All pieces -/

/-- The piece of a line feed. -/
def feed : Piece := ⟨.newline, ['\n']⟩

theorem cut_feeds (k : Nat) : cut (List.replicate k '\n') = List.replicate k feed := by
  induction k with
  | zero => exact cut_nil
  | succ k ih =>
    rw [List.replicate_succ, List.replicate_succ, cut_cons, ← ih]
    rfl

/-- Line feeds after a text in which nothing is open are pieces of their own. -/
theorem cut_append_feeds {a : List Char} (hclosed : ∀ p ∈ (cut a).getLast?, p.isOpen = false)
    (hreturn : a.getLast? ≠ some '\r') (k : Nat) :
    cut (a ++ List.replicate k '\n') = cut a ++ List.replicate k feed := by
  cases k with
  | zero => simp
  | succ k =>
    rw [← cut_feeds]
    cases hlast : (cut a).getLast? with
    | none =>
      have hnil : a = [] := by
        rw [← flatMap_cut a, List.getLast?_eq_none_iff.mp hlast]
        rfl
      rw [hnil, cut_nil]
      rfl
    | some p =>
      refine cut_append_of (P := fun p => p.isOpen = false) (fun c cs hcs hfirst => ?_)
        ⟨p, hlast, hclosed p hlast⟩
      rw [List.replicate_succ]
      by_cases hrest : (first c cs).2 = []
      · have hself := hfirst.resolve_right (not_not.mpr hrest)
        rw [first_append_feed _ hrest hself, hrest]
        · rfl
        · rwa [getLast?_of_suffix hcs]
      · rw [first, extent_append_right hrest fun s d ds _ => s.next_append_feed d ds _]
        rfl

theorem merge_append_feeds (ps : List Piece) (k : Nat) :
    merge (ps ++ List.replicate k feed) = merge ps ++ List.replicate k feed := by
  induction k generalizing ps with
  | zero => simp
  | succ k ih =>
    have hfeeds : merge (List.replicate k feed) = List.replicate k feed := by
      simpa [merge] using ih []
    rw [List.replicate_succ, merge_append_cons (by decide), hfeeds]

theorem place_feeds (a : Position) (k : Nat) :
    ∀ l ∈ place a true (List.replicate k feed), l.kind = .newline := by
  induction k generalizing a with
  | zero => simp [place]
  | succ k ih =>
    rw [List.replicate_succ, place]
    exact List.forall_mem_cons.mpr ⟨rfl, ih _⟩

end Piece

/-! ### Lexemes -/

namespace Lexeme

open Piece

theorem split_newlines {ls : List Lexeme} (h : ∀ l ∈ ls, l.kind = .newline) :
    (contract ls).flatMap splitCopula = ls := by
  induction ls with
  | nil => rfl
  | cons l ls ih =>
    obtain ⟨hl, hls⟩ := List.forall_mem_cons.mp h
    rw [contract_cons (by simp [hl]) (by simp [hl]), List.flatMap_cons, ih hls, splitCopula,
      if_neg (by simp [hl])]
    rfl

/-- Line feeds after a source in which nothing is open replace the end of its last line by another one,
and come after that. -/
theorem split_append_feeds {source : String}
    (hclosed : ∀ p ∈ (cut source.toList).getLast?, p.isOpen = false)
    (hreturn : source.toList.getLast? ≠ some '\r') (k : Nat) :
    ∃ ls l l' ns, split source = ls ++ [l] ∧
      split (source ++ String.ofList (List.replicate (k + 1) '\n')) = ls ++ l' :: ns ∧
      l.isNewline ∧ l'.isNewline ∧ ∀ n ∈ ns, n.isNewline := by
  have hnewline : ∀ {l : Lexeme}, l.kind = .newline → l.isNewline := fun hk =>
    isNewline_iff.mpr (.inl hk)
  have hpieces : merge (cut (source ++ String.ofList (List.replicate (k + 1) '\n')).toList) =
      merge (cut source.toList) ++ List.replicate (k + 1) feed := by
    rw [String.toList_append, String.toList_ofList, cut_append_feeds hclosed hreturn,
      merge_append_feeds]
  by_cases hline : (cut source.toList).getLast?.map Piece.kind = some .newline
  · -- the last line is ended already, and what follows are lines of their own
    have hmerge := (getLast?_merge (cut source.toList)).trans hline
    have hplace := (getLast?_place (merge (cut source.toList)) .origin false).mpr hmerge
    obtain ⟨l, hl, hlast⟩ := (tiled_split source).terminated.newline_last
    obtain ⟨ls, hls⟩ := List.getLast?_eq_some_iff.mp hl
    have hfeeds := place_feeds (Position.origin.advance source.toList) (k + 1)
    refine ⟨ls, l, l, _, hls, ?_, hlast, hlast, fun n hn => hnewline (hfeeds n hn)⟩
    rw [split, lex, scan, hpieces, place_append _ _ _ hmerge, flatMap_merge, flatMap_cut,
      contract_append_of_newline hplace, List.flatMap_append, split_newlines hfeeds, ← scan, ← lex,
      hls, List.append_assoc]
    rfl
  · -- the first line feed stands in for the end of the input
    have hmerge : (merge (cut source.toList)).getLast?.map Piece.kind ≠ some .newline := by
      rwa [getLast?_merge]
    let a := Position.origin.advance source.toList
    have hfeeds := place_feeds (a.advance ['\n']) k
    have hall : ∀ l ∈ feed.toLexeme a :: place (a.advance ['\n']) true (List.replicate k feed),
        l.kind = .newline :=
      List.forall_mem_cons.mpr ⟨rfl, hfeeds⟩
    refine ⟨fragment .origin source.toList, endOfInput a, feed.toLexeme a, _,
      split_eq_fragment hline, ?_, rfl, rfl, fun n hn => hnewline (hfeeds n hn)⟩
    rw [split, lex, scan, hpieces, place_append_lay hmerge, flatMap_merge, flatMap_cut,
      contract_append_of_head, List.flatMap_append]
    · exact congrArg (_ ++ ·) (split_newlines hall)
    · intro m hm
      obtain rfl := Option.some.inj hm
      exact Kind.noConfusion

end Lexeme

namespace Reading

/-! ### Open blocks -/

theorem Statement.push_fresh_newline {l : Lexeme} (h : l.isNewline) :
    fresh.push l = .ok (.done (.blank l.span)) :=
  Exchange.pushStart_newline h true

namespace Line

variable {line mid : Line} {l : Lexeme}

theorem push_of_error {e : ParseError} (h : line.innermost.push l = .error e) :
    line.push l = .error e := by
  induction line with
  | statement s => exact push_statement_error h
  | block header body otherwise current ih =>
    rw [push_block, ih h]
    rfl

/-- The end of a line ends the statement that is being read, in all the blocks that are open. -/
theorem innermost_of_newline (hl : l.isNewline) (h : line.push l = .ok (.next mid)) :
    mid.innermost = .fresh := by
  rcases Statement.push_newline hl line.innermost with ⟨n, hdone⟩ | ⟨e, herror⟩ | ⟨-, hnext⟩
  · rw [push_of_done hdone] at h
    exact innermost_receive h
  · rw [push_of_error herror] at h
    cases h
  · rw [push_of_next hnext] at h
    cases h
    exact innermost_become _ line

/-- Where nothing of a line has been read, it makes no difference where the source ends. -/
theorem finish_of_innermost (h : line.innermost = .fresh) (stop stop' : Span) :
    line.finish stop = line.finish stop' := by
  induction line with
  | statement s =>
    obtain rfl : s = .fresh := h
    rfl
  | block header body otherwise current ih => rw [finish, finish, ih h]

/-- What has become of a line comes to the same as what would become of it at the end of the
source. -/
def Settles (stop : Span) (finished : Except ParseError (Option Node)) :
    Except ParseError (Step Line Node) → Prop
  | .error e => finished = .error e
  | .ok (.next line) => line.finish stop = finished
  | .ok (.done node) | .ok (.yield node _) =>
    finished = .ok none ∧ (∃ span, node = .blank span) ∨ finished = .ok (some node)

/-- A line that has ended in a block leaves the block where the end of the source would close it. -/
theorem settles_accept (stop : Span) (header : Node) (body : List Node)
    (otherwise : Option (List Node)) (node : Node) :
    Settles stop ((accept header body otherwise node).map fun
      | .next (block header body otherwise _) => some (blockNode header body otherwise)
      | .next (statement _) => none
      | .done node | .yield node _ => some node) (accept header body otherwise node) := by
  unfold accept
  split
  · exact .inr rfl
  all_goals rfl

/-- An empty line closes the innermost block, and the end of the source would do the same. -/
theorem settles_blank (h : line.innermost = .fresh) (span stop : Span) :
    Settles stop (line.finish stop) (line.receive (.blank span)) := by
  induction line with
  | statement s =>
    obtain rfl : s = .fresh := h
    exact .inl ⟨rfl, span, rfl⟩
  | block header body otherwise current ih =>
    have hcurrent := ih h
    rw [receive, finish]
    cases hreceive : current.receive (.blank span) with
    | error e =>
      rw [hreceive] at hcurrent
      have hfinish : current.finish stop = .error e := hcurrent
      rw [hfinish]
      rfl
    | ok step =>
      rw [hreceive] at hcurrent
      rcases (absorbs_receive _ current).cases hreceive with ⟨current', rfl⟩ | ⟨node, rfl⟩
      · have hfinish : current'.finish stop = current.finish stop := hcurrent
        rw [← hfinish]
        rfl
      · rcases hcurrent with ⟨hfinish, span', rfl⟩ | hfinish
        · rw [hfinish]
          exact .inr rfl
        · rw [hfinish]
          exact settles_accept stop header body otherwise node

end Line

end Reading

namespace Program

open Reading Line

variable {line : Line} {l : Lexeme} {ls ns : List Lexeme}

/-- As long as nothing of a line has been read, empty lines change nothing. -/
theorem read_feeds (hline : line.innermost = .fresh) (hns : ∀ n ∈ ns, n.isNewline)
    (last last' : Span) : read line last ns = read line last' [] := by
  induction ns generalizing line last with
  | nil => rw [read, read, finish_of_innermost hline last last']
  | cons n ns ih =>
    obtain ⟨hn, hns⟩ := List.forall_mem_cons.mp hns
    have hpush : line.push n = line.receive (.blank n.span) := by
      refine push_of_done ?_
      rw [hline]
      exact Statement.push_fresh_newline hn
    have hsettles := settles_blank hline n.span last'
    rw [← hpush] at hsettles
    cases hstep : line.push n with
    | error e =>
      rw [hstep] at hsettles
      have hfinish : line.finish last' = .error e := hsettles
      rw [read_error hstep, read, hfinish]
    | ok step =>
      rw [hstep] at hsettles
      rcases (Line.absorbs_push n line).cases hstep with ⟨mid, rfl⟩ | ⟨node, rfl⟩
      · have hfinish : mid.finish last' = line.finish last' := hsettles
        rw [read_next hstep, ih (innermost_of_newline hn hstep) hns, read, hfinish, read]
      · have hend : read fresh last' [] = ⟨[], none⟩ := rfl
        rw [read_done hstep, ih rfl hns n.span, hend, read]
        rcases hsettles with ⟨hfinish, span, rfl⟩ | hfinish
        · rw [hfinish]
          rfl
        · rw [hfinish]

/-- Empty lines after the end of a line change nothing. -/
theorem read_append_feeds (hl : l.isNewline) (hns : ∀ n ∈ ns, n.isNewline) (line : Line)
    (last : Span) : read line last (ls ++ l :: ns) = read line last (ls ++ [l]) := by
  induction ls generalizing line last with
  | nil =>
    rw [List.nil_append, List.nil_append]
    cases hstep : line.push l with
    | error e => rw [read_error hstep, read_error hstep]
    | ok step =>
      rcases (Line.absorbs_push l line).cases hstep with ⟨mid, rfl⟩ | ⟨node, rfl⟩
      · rw [read_next hstep, read_next hstep, read_feeds (innermost_of_newline hl hstep) hns]
      · rw [read_done hstep, read_done hstep, read_feeds rfl hns]
  | cons x ls ih =>
    rw [List.cons_append, List.cons_append]
    cases hstep : line.push x with
    | error e => rw [read_error hstep, read_error hstep]
    | ok step =>
      rcases (Line.absorbs_push x line).cases hstep with ⟨mid, rfl⟩ | ⟨node, rfl⟩
      · rw [read_next hstep, read_next hstep, ih]
      · rw [read_done hstep, read_done hstep, ih]

theorem uniform_true : Uniform fun _ _ => True :=
  ⟨fun _ _ => trivial, fun _ _ => trivial⟩

/-- Nothing is asked of mistakes, so that any two ends of a line can stand in for each other. -/
theorem exchange_newlines {l l' : Lexeme} (h : l' = l ∨ l.isNewline ∧ l'.isNewline) :
    Exchange (fun _ _ => True) l l' :=
  ⟨uniform_true, h, fun _ => trivial, fun _ => trivial,
    fun _ => trivial, fun _ _ => trivial⟩

theorem toExcept_eq_ok {p : Parsed} {nodes : List Node} :
    p.toExcept = .ok nodes ↔ p.nodes = nodes ∧ p.failure = none := by
  unfold Parsed.toExcept
  cases p.failure <;> simp

/-- **The end of a source closes everything**: a source that is read without a mistake, and that ends
neither with a carriage return nor in a comment or a string, can be followed by any number of line feeds.
It is the same program, whatever blocks are open at its end. -/
theorem parse_append_feeds {source : String} {nodes : List Node}
    (hread : (parse source).toExcept = .ok nodes)
    (hreturn : source.toList.getLast? ≠ some '\r')
    (hclosed : ∀ p ∈ (Piece.cut source.toList).getLast?, p.isOpen = false) (k : Nat) :
    (parse (source ++ String.ofList (List.replicate k '\n'))).toExcept = .ok nodes := by
  cases k with
  | zero => simpa using hread
  | succ k =>
    obtain ⟨ls, l, l', ns, hsplit, hfeeds, hl, hl', hns⟩ :=
      Lexeme.split_append_feeds hclosed hreturn k
    have hlexemes : List.Forall₂ (Exchange fun _ _ => True) (ls ++ [l]) (ls ++ [l']) := by
      refine List.rel_append (List.forall₂_same.mpr fun x _ => exchange_newlines (.inl rfl)) ?_
      exact .cons (exchange_newlines (.inr ⟨hl, hl'⟩)) .nil
    have hmatches : (read .fresh .origin (ls ++ [l])).Matches (fun _ _ => True)
        (read .fresh .origin (ls ++ [l'])) :=
      read_exchange uniform_true hlexemes Line.located_fresh fun _ => trivial
    rw [← hsplit, ← parse_eq_read] at hmatches
    rw [parse_eq_read, hfeeds, read_append_feeds hl' hns]
    obtain ⟨hnodes, hfailure⟩ := toExcept_eq_ok.mp hread
    refine toExcept_eq_ok.mpr ⟨hmatches.nodes_eq.trans hnodes, ?_⟩
    have hrel := hmatches.failure
    rw [hfailure] at hrel
    cases hfails : (read .fresh .origin (ls ++ [l'])).failure with
    | none => rfl
    | some e =>
      rw [hfails] at hrel
      cases hrel

/-- A loop and a conditional with its `else` that are open at the end of the source, and a poetic
number that the end of the source ends. -/
theorem parse_append_feeds_open_blocks :
    let source := "while x\nif y\nsay 1\nelse\nTommy is lovely"
    ∃ nodes, nodes.length = 1 ∧ (parse source).toExcept = .ok nodes ∧
      (parse (source ++ String.ofList (List.replicate 3 '\n'))).toExcept = .ok nodes := by
  intro source
  have hread : (parse source).toExcept = .ok (parse source).nodes :=
    toExcept_eq_ok.mpr ⟨rfl, by decide +kernel⟩
  exact ⟨_, by decide +kernel, hread,
    parse_append_feeds hread (by decide +kernel) (by decide +kernel) 3⟩

end Program

end Ballad
