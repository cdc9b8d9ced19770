/-
# Lawful readers

What is relied on when settings are read from files and variables: maps have distinct keys, and what
the variables say about a setting is what the variable of the setting says, or else the one of its
section.  Names of variables count in lower case, so of two that differ in case alone the later one
is heard.
-/
import TreeDiff.Proofs.Merging
import TreeDiff.Settings.Reader

namespace TreeDiff

/-- The text of the last variable that has a name when its own is put in lower case. -/
def Variables.last? (environment : Variables) (name : String) : Option String :=
  (environment.reverse.find? fun v => v.1.map Char.toLower = name).map (·.2)

namespace Section

/-- The name of the variable of a setting. -/
def settingVariable (part : Section) (n : String) : String :=
  part.variableName ++ Variables.separator ++ n

/-- Whether an entry is about a setting, whatever the case of its key. -/
def denotes (n : String) (e : Value × Value) : Bool :=
  match e.1 with
  | .text name => name.map Char.toLower = n
  | _ => false

/-- A section in which no setting is named twice, whatever the case of its name. -/
def NamesOnce (part : Section) (entries : List (Value × Value)) : Prop :=
  ∀ n ∈ part.settingNames, (entries.filter (denotes n)).length ≤ 1

variable [Reader]

/-- What a variable with a text says about a setting: the text, or for a list what it denotes as
JSON.  An empty text is left as it is. -/
def settingValue? (part : Section) (n text : String) : Option Value :=
  if part.listNames.contains n && !text.isEmpty then Reader.json? text else some (.text text)

/-- What the variable of a setting says. -/
def singleValue? (part : Section) (environment : Variables) (n : String) : Option Value :=
  (environment.last? (part.settingVariable n)).bind (part.settingValue? n)

/-- What the variable that holds a whole section says about a setting. -/
def wholeValue? (part : Section) (environment : Variables) (n : String) : Option Value :=
  (environment.last? part.variableName).bind fun text =>
    match Reader.json? text with
    | some (.map whole) => (whole.find? (denotes n)).map (·.2)
    | _ => none

/-- The variable that holds a whole section, if there is one, gives a map that names each setting
once. -/
def GivesMap (part : Section) (environment : Variables) : Prop :=
  ∀ text, environment.last? part.variableName = some text →
    ∃ whole, Reader.json? text = some (.map whole) ∧ part.NamesOnce whole

end Section

/-- What a reader can be relied on for. -/
class Reader.Lawful [Reader] : Prop where
  /-- A map in a document gives each text once as a key. -/
  nodup_document {file : String} {bytes : List UInt8} {entries : List (Value × Value)}
    (h : Reader.document file bytes = .ok (.map entries)) :
    (Value.textKeys entries).Nodup ∧ ∀ p ∈ entries, ∀ inner, p.2 = .map inner →
      (Value.textKeys inner).Nodup
  /-- A section about which variables say something is a map like that. -/
  isMap_sections {environment : Variables} {said : Section → Option Value} {part : Section}
    {v : Value} (h : Reader.sections environment = .ok said) (hmap : part.GivesMap environment)
    (hv : said part = some v) : ∃ inner, v = .map inner ∧ (Value.textKeys inner).Nodup
  /-- The variable of a setting counts before the one of its section.  A variable whose name goes on
  below the setting may put a map in its place. -/
  fits_sections {environment : Variables} {said : Section → Option Value} {part : Section}
    {n : String} (h : Reader.sections environment = .ok said) (hmap : part.GivesMap environment)
    (hn : n ∈ part.settingNames) :
    Value.Fits ((part.singleValue? environment n).or (part.wholeValue? environment n))
      (Value.under n (said part))

end TreeDiff
