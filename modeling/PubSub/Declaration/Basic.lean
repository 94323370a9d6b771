/-!
# Declarations that describe streams

A type declaration may say under which key its streams are registered,
and which of its fields is the subject of a message.  Both are said in
attributes named `stream`: on the declaration `#[stream(key = "...")]`,
on a field `#[stream(subject)]`.  Attributes of any other name are left
alone.

* `Declaration` — what a declaration says;
* `Declaration.binding` — the key and the subject, or what is wrong.
-/

namespace PubSub

/-- What an entry of an attribute is set to. -/
inductive EntryValue where
  | absent
  | text (s : String)
  /-- A text, and something else behind it than a comma. -/
  | crowded (s : String)
  /-- A number, or anything else that is no text. -/
  | number
  /-- The attribute ends with the equals sign. -/
  | missing
  /-- Not set at all, but followed by something in parentheses or by
  another word. -/
  | nested
  deriving DecidableEq, Repr

/-- What stands where a name is expected. -/
inductive Misfit where
  | literal
  /-- Any other token, such as a second comma. -/
  | token
  /-- The attribute ends there. -/
  | nothing
  deriving DecidableEq, Repr

/-- One entry of an attribute. -/
inductive Entry where
  | named (path : String) (value : EntryValue)
  /-- It does not begin with a name. -/
  | unnamed (found : Misfit)
  /-- Its name breaks off after `::`. -/
  | broken (found : Misfit)
  deriving DecidableEq, Repr

/-- How an attribute is written. -/
inductive AttributeForm where
  /-- A list of entries in parentheses. -/
  | list (entries : List Entry)
  /-- The path alone. -/
  | path
  /-- The path set to a value. -/
  | nameValue
  deriving DecidableEq, Repr

/-- An attribute. -/
structure Attribute where
  path : String
  form : AttributeForm
  deriving DecidableEq, Repr

/-- A field and its attributes. -/
structure DeclaredField where
  name : String
  attributes : List Attribute
  deriving DecidableEq, Repr

/-- What kind of type is declared. -/
inductive DeclarationKind where
  | named
  | tuple
  | unit
  | enum
  | union
  deriving DecidableEq, Repr

/-- A type declaration. -/
structure Declaration where
  name : String
  kind : DeclarationKind
  attributes : List Attribute
  fields : List DeclaredField
  deriving DecidableEq, Repr

namespace Declaration

/-- What can be wrong with the attributes. -/
inductive Flaw where
  | expectedArguments
  | expectedParentheses
  | expectedKey
  | expectedEquals
  | expectedText
  /-- The attribute ends where the text should be. -/
  | endedBeforeText
  | expectedSubject
  | expectedComma
  | secondSubject
  | unnamed (found : Misfit)
  | broken (found : Misfit)
  deriving DecidableEq, Repr

/-- The wording of a flaw. -/
def Flaw.message : Flaw → String
  | .expectedArguments =>
      "expected attribute arguments in parentheses: #[stream(...)]"
  | .expectedParentheses => "expected parentheses: #[stream(...)]"
  | .expectedKey => "expected `key = \"...\"`"
  | .expectedEquals => "expected `=`"
  | .expectedText => "expected string literal"
  | .endedBeforeText => "unexpected end of input, expected string literal"
  | .expectedSubject => "expected `subject`"
  | .expectedComma => "expected `,`"
  | .secondSubject => "only one field may be marked #[stream(subject)]"
  | .unnamed .literal => "unexpected literal in nested attribute, expected ident"
  | .unnamed .token => "unexpected token in nested attribute, expected ident"
  | .unnamed .nothing => "unexpected end of input, expected nested attribute"
  | .broken .nothing => "unexpected end of input, expected ident"
  | .broken _ => "expected ident"

/-- The attributes that are meant for us. -/
def streamAttributes (attributes : List Attribute) : List Attribute :=
  attributes.filter (·.path == "stream")

/-- The entries of an attribute, which must be a list. -/
def entriesOf (attr : Attribute) : Except Flaw (List Entry) :=
  match attr.form with
  | .list entries => .ok entries
  | .path => .error .expectedArguments
  | .nameValue => .error .expectedParentheses

/-- The key that an entry gives. -/
def keyOf : Entry → Except Flaw String
  | .named path value =>
      if path ≠ "key" then .error .expectedKey
      else
        match value with
        | .absent | .nested => .error .expectedEquals
        | .number => .error .expectedText
        | .missing => .error .endedBeforeText
        | .crowded _ => .error .expectedComma
        | .text s => .ok s
  | .unnamed found => .error (.unnamed found)
  | .broken found => .error (.broken found)

/-- Check that an entry marks the subject. -/
def checkSubject : Entry → Except Flaw Unit
  | .named path value =>
      if path ≠ "subject" then .error .expectedSubject
      else if value ≠ .absent then .error .expectedComma
      else .ok ()
  | .unnamed found => .error (.unnamed found)
  | .broken found => .error (.broken found)

/-- The last key given on the declaration. -/
def key? (d : Declaration) : Except Flaw (Option String) := do
  let keys ← (streamAttributes d.attributes).mapM fun attr => do
    (← entriesOf attr).mapM keyOf
  .ok keys.flatten.getLast?

/-- Does the attribute mark its field as the subject? -/
def marksSubject (attr : Attribute) : Except Flaw Bool := do
  let entries ← entriesOf attr
  entries.forM checkSubject
  .ok !entries.isEmpty

/-- The subject after one more attribute of the field `member`.  A second
mark is a mistake, even on the same field. -/
def addMark (member : String) (subject : Option String) (attr : Attribute) :
    Except Flaw (Option String) := do
  if ← marksSubject attr then
    if subject.isSome then .error .secondSubject else .ok (some member)
  else .ok subject

/-- The fields by the names that expressions use for them: their own, or
their positions in a tuple.  Alternatives have no fields of their own. -/
def members (d : Declaration) : List (String × DeclaredField) :=
  match d.kind with
  | .named => d.fields.map fun f => (f.name, f)
  | .tuple => d.fields.mapIdx fun i f => (toString i, f)
  | _ => []

/-- The field that is marked as the subject. -/
def subject? (d : Declaration) : Except Flaw (Option String) :=
  d.members.foldlM
    (fun subject (member, field) =>
      (streamAttributes field.attributes).foldlM (addMark member) subject)
    none

/-- What a declaration says about its streams.  Without a key, the key is
made from the module and the name. -/
structure Binding where
  key : Option String
  subject : Option String
  deriving DecidableEq, Repr

/-- The key and the subject; the key is looked at first. -/
def binding (d : Declaration) : Except Flaw Binding := do
  let key ← d.key?
  let subject ← d.subject?
  .ok ⟨key, subject⟩

end Declaration
end PubSub
