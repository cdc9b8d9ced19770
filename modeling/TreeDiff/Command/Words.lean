/-
# The words of a command line

Some words of a command line are options, some are the values of options, and the others stand for
themselves.  The long name of an option starts with two dashes, and an equals sign may join its
value to it.  The short name is a dash and a letter; the letters of several options may share a
dash, and behind a letter whose option takes a value the value may follow at once.  Otherwise the
value is the next word, whatever it looks like.  After two dashes alone no word is an option.
-/
import TreeDiff.Text.Order
import TreeDiff.Text.Similarity

namespace TreeDiff.Command

/-- What an option is for. -/
inductive Topic where
  | verbose
  | version
  | help
  | language
  | schema
  | recurse
  | type
  | fullText
  | metadata
  | summary
  | table
deriving DecidableEq, Repr

/-- How an option is written. -/
structure OptionForm where
  topic : Topic
  letter : Option Char
  word : String
  takesValue : Bool
deriving DecidableEq, Repr

namespace OptionForm

/-- The long name of an option. -/
def longName (form : OptionForm) : String := "--" ++ form.word

/-- The short name that a letter makes. -/
def shortName (letter : Char) : String := String.ofList ['-', letter]

/-- All names of an option, the short one first. -/
def names (form : OptionForm) : List String :=
  (form.letter.map shortName).toList ++ [form.longName]

end OptionForm

/-- Why words cannot be read. -/
inductive WordFault where
  /-- No option has the name; some have similar names. -/
  | unknownOption (name : String) (similar : List String)
  | missingValue (name : String)
  | needlessValue (name : String)
deriving DecidableEq, Repr

/-- Whether a quotient is at least three fifths. -/
def isClose (r : Text.Ratio) : Bool := 3 * r.den ≤ 5 * r.num

/-- Whether one of two names with their similarities comes first among the similar names: the more
similar one, and of two that are equally similar the one that is later in the dictionary. -/
def closerFirst (a b : String × Text.Ratio) : Bool :=
  let left := a.2.num * b.2.den
  let right := b.2.num * a.2.den
  right < left || (left = right && Text.notAfter b.1 a.1)

/-- The names that are similar to a word, at most three of them, sorted. -/
def similarNames (word : String) (names : List String) : List String :=
  let rated := names.map fun name =>
    (name, Text.share (Text.matchedCount name.toList word.toList) name.toList word.toList)
  let close := (rated.filter fun (_, r) => isClose r).mergeSort closerFirst
  Text.sorted ((close.take 3).map (·.1))

/-- An option as it was given; one that takes no value has the empty one. -/
structure GivenOption where
  topic : Topic
  value : String
deriving DecidableEq, Repr

/-- An option whose value is the next word, under the name by which it was given. -/
structure OpenOption where
  name : String
  topic : Topic
deriving DecidableEq, Repr

/-- The options in a word. -/
structure WordReading where
  given : List GivenOption
  awaiting : Option OpenOption
deriving DecidableEq, Repr

namespace WordReading

/-- The reading of a word that goes on after an option. -/
def after (first : GivenOption) (r : WordReading) : WordReading := { r with given := first :: r.given }

end WordReading

/-- Read letters that share a dash. -/
def readLetters (forms : List OptionForm) : List Char → Except WordFault WordReading
  | [] => .ok ⟨[], none⟩
  | c :: rest =>
    let name := OptionForm.shortName c
    match forms.find? fun form => form.letter = some c with
    | none => .error (.unknownOption name [])
    | some form =>
      if !form.takesValue then
        (readLetters forms rest).map (WordReading.after ⟨form.topic, ""⟩)
      else if rest.isEmpty then .ok ⟨[], some ⟨name, form.topic⟩⟩
      else .ok ⟨[⟨form.topic, String.ofList rest⟩], none⟩

/-- A name and the value that an equals sign joins to it. -/
def splitValue (word : List Char) : String × Option String :=
  let name := String.ofList (word.takeWhile (· ≠ '='))
  match word.dropWhile (· ≠ '=') with
  | [] => (name, none)
  | _ :: value => (name, some (String.ofList value))

/-- Read a word that starts with a dash. -/
def readOption (forms : List OptionForm) (word : List Char) : Except WordFault WordReading :=
  let (name, value?) := splitValue word
  match forms.find? fun form => form.longName = name with
  | some form =>
    match form.takesValue, value? with
    | true, some value => .ok ⟨[⟨form.topic, value⟩], none⟩
    | true, none => .ok ⟨[], some ⟨name, form.topic⟩⟩
    | false, some _ => .error (.needlessValue name)
    | false, none => .ok ⟨[⟨form.topic, ""⟩], none⟩
  | none =>
    match word with
    | '-' :: '-' :: _ =>
      .error (.unknownOption name (similarNames name (forms.map OptionForm.longName)))
    | _ => readLetters forms word.tail

/-- The words of a command line, told apart. -/
structure Words where
  /-- The options in the order in which they were given. -/
  options : List GivenOption
  /-- The words that stand for themselves. -/
  plain : List String
deriving DecidableEq, Repr

namespace Words

/-- Whether an option was given. -/
def has (w : Words) (topic : Topic) : Bool := w.options.any fun o => o.topic = topic

/-- The values given to an option, in order. -/
def values (w : Words) (topic : Topic) : List String :=
  (w.options.filter fun o => o.topic = topic).map (·.value)

/-- The value that counts if an option is given several times: the last one. -/
def value? (w : Words) (topic : Topic) : Option String := (w.values topic).getLast?

/-- More options in front of words. -/
def withOptions (given : List GivenOption) (w : Words) : Words :=
  { w with options := given ++ w.options }

/-- One more word that stands for itself. -/
def withPlain (word : String) (w : Words) : Words := { w with plain := word :: w.plain }

/-- Tell words apart.  `mixed` allows options after words that stand for themselves, and `awaiting`
is an option whose value comes next. -/
def readFrom (forms : List OptionForm) (mixed : Bool) :
    Option OpenOption → List String → Except WordFault Words
  | none, [] => .ok ⟨[], []⟩
  | some o, [] => .error (.missingValue o.name)
  | some o, word :: rest => (readFrom forms mixed none rest).map (withOptions [⟨o.topic, word⟩])
  | none, word :: rest =>
    match word.toList with
    | ['-', '-'] => .ok ⟨[], rest⟩
    | '-' :: c :: chars =>
      match readOption forms ('-' :: c :: chars) with
      | .error fault => .error fault
      | .ok r => (readFrom forms mixed r.awaiting rest).map (withOptions r.given)
    | _ =>
      if mixed then (readFrom forms mixed none rest).map (withPlain word)
      else .ok ⟨[], word :: rest⟩

/-- Tell words apart. -/
def read (forms : List OptionForm) (mixed : Bool) (words : List String) : Except WordFault Words :=
  readFrom forms mixed none words

end Words

end TreeDiff.Command
