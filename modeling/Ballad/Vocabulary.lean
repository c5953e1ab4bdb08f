import Ballad.Node

/-!
# Vocabulary

The words with a meaning of their own. All are given in lower case, and a word is compared as it
stands.

- `Vocabulary.constant`, `Vocabulary.connective`, `Vocabulary.strict`, `Vocabulary.inclusive`,
  `Vocabulary.rounding`: the words that stand for a literal, an operator or a direction.
- `Vocabulary.isReserved`: the words that cannot name a variable.
-/

namespace Ballad.Vocabulary

/-- Words that begin a variable of two words, such as `my heart` (`ARTICLES`). -/
def articles : List String := ["a", "an", "the", "my", "your", "our"]

/-- Words that stand for the variable assigned last (`PRONOUNS`). -/
def pronouns : List String :=
  ["it", "he", "she", "him", "her", "they", "them", "ze", "hir", "zie", "zir", "xe", "xem", "ve",
    "ver"]

/-- Words that assign the rest of the line to what is in front of them, or compare (`COPULAS`). -/
def copulas : List String := ["is", "are", "was", "were", "'s", "'re"]

/-- Words that compare and negate (`NEGATED_COPULAS`). -/
def negatedCopulas : List String := ["isn't", "aren't", "wasn't", "weren't", "ain't"]

/-- Words that assign the rest of the line as it stands (`SAYS`). -/
def quotatives : List String := ["say", "says", "said"]

/-- Words that begin the parameters of a function (`TAKES`). -/
def declaratives : List String := ["takes", "wants"]

/-- Words that begin or divide statements (`STATEMENT`). -/
def statementWords : List String :=
  ["let", "be", "put", "into", "say", "shout", "whisper", "scream", "listen", "to", "build", "up",
    "knock", "down", "turn", "round", "around", "rock", "push", "roll", "pop", "cast", "burn",
    "split", "cut", "shatter", "join", "unite", "if", "else", "otherwise", "while", "until", "break",
    "continue", "return", "give", "send", "take", "back", "takes", "wants", "taking", "says",
    "said", "not", "at", "than", "as"]

/-- The words for literals (`TRUE`, `FALSE`, `NULL`, `MYSTERIOUS`, `EMPTY`). -/
def constants : List (List String × Literal) :=
  [(["true", "right", "yes", "ok"], .boolean true),
    (["false", "wrong", "no", "lies"], .boolean false),
    (["null", "nothing", "nowhere", "nobody", "gone"], .null),
    (["mysterious"], .mysterious),
    (["empty", "silent", "silence"], .string "")]

/-- The words for the operators that one word spells (`ARITHMETIC`). -/
def connectives : List (List String × Operator) :=
  [(["plus", "with"], .add), (["minus", "without"], .sub), (["times", "of"], .mul),
    (["over", "between"], .div), (["and"], .and), (["or"], .or), (["nor"], .nor)]

/-- The words in the middle of `is … than` (`GREATER`, `LESS`). -/
def comparatives : List (List String × Operator) :=
  [(["higher", "greater", "bigger", "stronger"], .greater),
    (["lower", "less", "smaller", "weaker"], .less)]

/-- The words in the middle of `is as … as` (`GREATER_EQUAL`, `LESS_EQUAL`). -/
def positives : List (List String × Operator) :=
  [(["high", "great", "big", "strong"], .greaterEqual),
    (["low", "little", "small", "weak"], .lessEqual)]

/-- The words for the directions of rounding (in `round_mode`). -/
def directions : List (List String × Rounding) :=
  [(["up"], .up), (["down"], .down), (["round", "around"], .nearest)]

/-- What a table of words gives for a word (`contains`). -/
def lookup {α : Type} (table : List (List String × α)) (word : String) : Option α :=
  (table.find? fun row => row.1.contains word).map (·.2)

/-- Whether a word is an article (`is_article`). -/
def isArticle (word : String) : Bool := articles.contains word

/-- Whether a word is a pronoun (`is_pronoun`). -/
def isPronoun (word : String) : Bool := pronouns.contains word

/-- Whether a word is a copula (`is_copula`). -/
def isCopula (word : String) : Bool := copulas.contains word

/-- Whether a word is a negated copula (`is_negated_copula`). -/
def isNegatedCopula (word : String) : Bool := negatedCopulas.contains word

/-- Whether a word assigns the rest of the line as it stands (`is_says`). -/
def isQuotative (word : String) : Bool := quotatives.contains word

/-- Whether a word begins the parameters of a function (`is_takes`). -/
def isDeclarative (word : String) : Bool := declaratives.contains word

/-- The literal that a word stands for (`constant`). -/
def constant (word : String) : Option Literal := lookup constants word

/-- The operator that a word spells on its own (`connective`). -/
def connective (word : String) : Option Operator := lookup connectives word

/-- The strict comparison that a word selects (`strict_comparison`). -/
def strict (word : String) : Option Operator := lookup comparatives word

/-- The inclusive comparison that a word selects (`inclusive_comparison`). -/
def inclusive (word : String) : Option Operator := lookup positives word

/-- The direction of rounding that a word stands for (`round_mode`). -/
def rounding (word : String) : Option Rounding := lookup directions word

/-- Whether a word cannot name a variable (`is_reserved`). The words in the middle of `is as …
as` can. -/
def isReserved (word : String) : Bool :=
  isArticle word || isPronoun word || (constant word).isSome || isCopula word
    || isNegatedCopula word || (connective word).isSome || (strict word).isSome
    || statementWords.contains word

end Ballad.Vocabulary
