import Ballad.Proofs.Reading.Line
import Ballad.Proofs.Tiling

/-!
# Trees have their shape

Whatever lexemes a program is read from, and wherever they end, all trees have the shape that
`Node.Formed` asks for: what is stored to can be stored to, operands have values, calls have
arguments, and the marks of empty lines and of `else` are gone. Names moreover have letters, if the
words that are read have.

- `Lexeme.Lettered`: lexemes of which no word is empty.
- `Lexeme.lettered_lex`: the lexemes of a source are such, up to any of them.
-/

namespace Ballad

namespace Lexeme

/-- Lexemes of which no word is empty. -/
def Lettered (ls : List Lexeme) : Prop :=
  ∀ l ∈ ls, l.kind = .identifier → l.literal ≠ ""

theorem lettered_lex (source : String) (k : Nat) : Lettered ((lex source).take k) := by
  intro l hl
  have hmem : l ∈ lex source := List.mem_of_mem_take hl
  exact (written_lex source l hmem).literal_ne

/-- A contracted copula and the word that it is taken off have letters. -/
theorem lettered_splitCopula {ls : List Lexeme} (h : Lettered ls) :
    Lettered (ls.flatMap splitCopula) := by
  intro m hm hk
  obtain ⟨l, hl, hml⟩ := List.mem_flatMap.mp hm
  rcases splitCopula_cases l with hsplit | ⟨-, stem, copula, -, hstem, hcopula, hsplit⟩
  · rw [hsplit, List.mem_singleton] at hml
    subst hml
    exact h m hl hk
  · rw [hsplit] at hml
    rcases List.mem_pair.mp hml with rfl | rfl
    · exact (written_wordAt hstem _ _).literal_ne rfl
    · exact (written_wordAt hcopula _ _).literal_ne rfl

end Lexeme

namespace Program

/-- The order of the text plays no part in the shape of the trees. -/
theorem everywhere_sound_words {word : String → Prop} {ls : List Lexeme}
    (h : ∀ l ∈ ls.flatMap Lexeme.splitCopula, l.kind = .identifier → word l.literal) :
    ∀ root ∈ (ofLexemes ls).nodes, root.Everywhere (Node.Sound (.any word)) :=
  everywhere_sound (Order.stream_any h .origin)

theorem everywhere_sound_any {lettered : Prop} {ls : List Lexeme}
    (h : lettered → Lexeme.Lettered ls) :
    ∀ root ∈ (ofLexemes ls).nodes,
      root.Everywhere (Node.Sound (.any fun w => lettered → w ≠ "")) :=
  everywhere_sound_words fun l hl hkind hlet => Lexeme.lettered_splitCopula (h hlet) l hl hkind

/-- **Every tree that is read is well formed**: for all lexemes, each node at every depth has its
shape, and its names are not empty unless a word is. The lexemes of a source up to any of them give
both. -/
theorem trees_wellFormed :
    (∀ ls : List Lexeme, ∀ root ∈ (ofLexemes ls).nodes,
      root.Everywhere Node.Formed ∧ (Lexeme.Lettered ls → root.Everywhere Node.Named)) ∧
    ∀ (source : String) (k : Nat), ∀ root ∈ (ofLexemes ((Lexeme.lex source).take k)).nodes,
      root.Everywhere fun n => n.Formed ∧ n.Named := by
  constructor
  · intro ls root hroot
    constructor
    · have hsound := everywhere_sound_any (False.elim : False → Lexeme.Lettered ls) root hroot
      exact hsound.imp fun n hn => hn.formed
    · intro hlet
      have hsound := everywhere_sound_any (fun _ : True => hlet) root hroot
      exact hsound.imp fun n hn => hn.named trivial
  · intro source k root hroot
    have hlet : True → Lexeme.Lettered ((Lexeme.lex source).take k) := fun _ =>
      Lexeme.lettered_lex source k
    have hsound := everywhere_sound_any hlet root hroot
    exact hsound.imp fun n hn => ⟨hn.formed, hn.named trivial⟩

/-- A function whose body is cut off after its first line. -/
theorem trees_wellFormed_cut :
    ∃ root ∈
      (ofLexemes ((Lexeme.lex "Hope takes pain\ngive back roll pain\nsay it").take 14)).nodes,
      root.opensBlock ∧ root.Everywhere fun n => n.Formed ∧ n.Named := by
  have hfunction : ∃ root ∈
      (ofLexemes ((Lexeme.lex "Hope takes pain\ngive back roll pain\nsay it").take 14)).nodes,
      root.opensBlock := by
    decide +kernel
  obtain ⟨root, hroot, hopens⟩ := hfunction
  exact ⟨root, hroot, hopens, trees_wellFormed.2 _ _ root hroot⟩

end Program

end Ballad
