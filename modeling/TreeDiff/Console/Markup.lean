/-
# Console markup

A group in brackets that starts with a lower-case letter, `#`, `/` or `@` is a style tag and not
shown.  A backslash before a tag makes it text.  A tag that starts with `/` closes the last open tag
of its name, or the last one at all if it has no name.
-/

namespace TreeDiff.Markup

/-- A part of a marked-up text. -/
inductive Part where
  | text (chars : List Char)
  | opening (name : List Char)
  | closing (name : List Char)
deriving DecidableEq, Repr

/-- Whether a group in brackets that starts with a character is a tag. -/
def startsTag (c : Char) : Bool := ('a' ≤ c && c ≤ 'z') || c = '#' || c = '/' || c = '@'

/-- The content of the tag whose bracket has just been read, and what follows the tag. -/
def tag? (text : List Char) : Option (List Char × List Char) :=
  match text with
  | c :: rest =>
    let isInside (c : Char) : Bool := c ≠ '[' && c ≠ ']'
    if startsTag c then
      match rest.dropWhile isInside with
      | ']' :: after => some (c :: rest.takeWhile isInside, after)
      | _ => none
    else none
  | [] => none

/-- The part that the content of a tag stands for; what follows an equals sign is no part of its
name. -/
def Part.ofTag (content : List Char) : Part :=
  match content.takeWhile (· ≠ '=') with
  | '/' :: name => .closing name
  | name => .opening name

/-- Put text before parts. -/
def prepend (chars : List Char) (parts : List Part) : List Part :=
  if chars.isEmpty then parts
  else match parts with
    | .text more :: rest => .text (chars ++ more) :: rest
    | _ => .text chars :: parts

/-- What stands in front of a tag with a number of backslashes: half of them, and whether the tag is
text. -/
def escapes (count : Nat) : List Char × Bool := (List.replicate (count / 2) '\\', count % 2 = 1)

/-- The rest of a text after a tag is shorter. -/
theorem length_of_tag? {text content after : List Char} (h : tag? text = some (content, after)) :
    after.length < text.length := by
  match text with
  | [] => simp [tag?] at h
  | c :: rest =>
    simp only [tag?] at h
    split at h
    · split at h
      · rename_i after' hdrop
        simp only [Option.some.injEq, Prod.mk.injEq] at h
        obtain ⟨_, rfl⟩ := h
        have hle := (List.dropWhile_suffix (fun c => decide (c ≠ '[') && decide (c ≠ ']'))
          (l := rest)).length_le
        simp only [ne_eq, decide_not] at hdrop hle
        rw [hdrop] at hle
        simp only [List.length_cons] at hle ⊢
        omega
      · simp at h
    · simp at h

/-- The parts of a text.  `slashes` counts the backslashes just read. -/
def parts (slashes : Nat) (text : List Char) : List Part :=
  match text with
  | [] => prepend (List.replicate slashes '\\') []
  | c :: rest =>
    if c = '\\' then parts (slashes + 1) rest
    else if c = '[' then
      match h : tag? rest with
      | some (content, after) =>
        have := length_of_tag? h
        let (shown, isText) := escapes slashes
        if isText then
          prepend (shown ++ '[' :: content ++ [']']) (parts 0 after)
        else prepend shown (.ofTag content :: parts 0 after)
      | none =>
        -- a backslash before any bracket is not shown
        prepend (List.replicate (slashes - 1) '\\' ++ ['[']) (parts 0 rest)
    else prepend (List.replicate slashes '\\' ++ [c]) (parts 0 rest)
termination_by text.length

/-- The short names of styles. -/
def shortNames : List (String × String) :=
  [("b", "bold"), ("d", "dim"), ("i", "italic"), ("u", "underline"), ("r", "reverse"),
   ("c", "conceal"), ("s", "strike"), ("uu", "underline2"), ("o", "overline")]

/-- The proper name of a style. -/
def styleName (name : List Char) : String :=
  let isBlank (c : Char) : Bool := c = ' ' || ('\t' ≤ c && c ≤ '\r')
  let trimmed := ((name.dropWhile isBlank).reverse.dropWhile isBlank).reverse
  let word := String.ofList (trimmed.map Char.toLower)
  (shortNames.lookup word).getD word

/-- The open tags after one has been closed, unless there is none to close. -/
def close (name : String) (opened : List String) : Option (List String) :=
  if name.isEmpty then
    match opened with
    | [] => none
    | _ :: rest => some rest
  else if opened.contains name then some (opened.erase name)
  else none

/-- The text that parts show, unless a tag is closed that is not open; `opened` are the open tags,
the last one first. -/
def shown (opened : List String) : List Part → Option (List Char)
  | [] => some []
  | .text chars :: rest => (shown opened rest).map (chars ++ ·)
  | .opening name :: rest => shown (styleName name :: opened) rest
  | .closing name :: rest =>
    match close (styleName name) opened with
    | none => none
    | some opened => shown opened rest

/-- The text that a marked-up text shows. -/
def plain? (text : List Char) : Option (List Char) :=
  if text.contains '[' then shown [] (parts 0 text) else some text

end TreeDiff.Markup
