import FeedIntake.Entry

/-! # Records

A record is the canonical form of an entry: a field that is missing or of an odd kind is left out,
never rejected. Every record bears the source that it came from. Its identity is its own address,
or else its link; a record with neither cannot be told from others.
-/

namespace FeedIntake

structure Record where
  title : Option String
  description : Option String
  contents : List Fields
  author : Option String
  authors : List Fields
  categories : List String
  uri : Option String
  link : Option String
  links : List Fields
  enclosures : List Fields
  published : Option String
  updated : Option String
  source : String
  deriving Inhabited

def firstNonEmpty (texts : List (Option String)) : String :=
  (texts.findSome? fun t => t.filter (!·.isEmpty)).getD ""

namespace Record

/-- The identity by which repeated entries are recognised, empty where there is none. -/
def identity (r : Record) : String := firstNonEmpty [r.uri, r.link]

def textField (key : String) (value : Option String) : Fields :=
  match value with
  | some s => [(key, .text s)]
  | none => []

def listField (key : String) (items : List Value) : Fields :=
  if items.isEmpty then [] else [(key, .list items)]

def toFields (r : Record) : Fields :=
  textField "title" r.title ++
  textField "description" r.description ++
  listField "contents" (r.contents.map .dict) ++
  textField "author" r.author ++
  listField "authors" (r.authors.map .dict) ++
  listField "categories" (r.categories.map .text) ++
  textField "uri" r.uri ++
  textField "link" r.link ++
  listField "links" (r.links.map .dict) ++
  listField "enclosures" (r.enclosures.map .dict) ++
  textField "publishedDate" r.published ++
  textField "updatedDate" r.updated ++
  [("rssFeed", .text r.source)]

def toValue (r : Record) : Value := .dict r.toFields

end Record

namespace Entry

def text? (e : Entry) (key : String) : Except Fault (Option String) :=
  return (← e.find? key).bind Value.text?

/-- The stamp of a broken-down time, where the value is one that can be rendered. -/
def stampOf (v : Option Value) : Option String :=
  (v.bind Value.brokenDown?).bind Time.BrokenDown.stamp?

/-- A date field: the stamp of its broken-down form, or else its raw text unless that is empty. -/
def date? (e : Entry) (name : String) : Except Fault (Option String) := do
  match stampOf (← e.find? (name ++ "_parsed")) with
  | some stamp => pure (some stamp)
  | none => return (← e.text? name).filter (!·.isEmpty)

/-- The fields of an item that have one of the given keys and are not null. -/
def project (keys : List String) (fields : Fields) : Fields :=
  (Fields.pick fields keys).filter fun f => !f.2.isNull

/-- The mappings of a list, each cut down to the given keys, without those left empty. -/
def projections (keys : List String) (v : Option Value) : List Fields :=
  match v with
  | some (.list items) =>
      (items.filterMap Value.dict?).filterMap fun fields =>
        let kept := project keys fields
        if kept.isEmpty then none else some kept
  | _ => []

/-- The word of a tag: its term, or else its label, where that is text and not empty. -/
def tagWord (fields : Fields) : Option String :=
  let word := firstNonEmpty [(fields.lookup "term").bind Value.text?,
    (fields.lookup "label").bind Value.text?]
  if word.isEmpty then none else some word

def categoriesOf (v : Option Value) : List String :=
  match v with
  | some (.list items) => (items.filterMap Value.dict?).filterMap tagWord
  | _ => []

/-- A description is the summary, or else what the entry gives as description, which may then be
the empty text. -/
def description? (e : Entry) : Except Fault (Option String) := do
  match (← e.text? "summary").filter (!·.isEmpty) with
  | some s => pure (some s)
  | none => e.text? "description"

def toRecord (e : Entry) (source : String) : Except Fault Record := do
  let title ← e.text? "title"
  let description ← e.description?
  let contents := projections ["type", "value", "language"] (← e.find? "content")
  let author ← e.text? "author"
  let authors := projections ["name", "email", "href"] (← e.find? "authors")
  let categories := categoriesOf (← e.find? "tags")
  let uri ← e.text? "id"
  let link ← e.text? "link"
  let links := projections ["rel", "type", "href", "title"] (← e.find? "links")
  let enclosures := projections ["href", "type", "length"] (← e.find? "enclosures")
  let published ← e.date? "published"
  let updated ← e.date? "updated"
  return { title, description, contents, author, authors, categories, uri, link, links, enclosures,
           published, updated, source }

end Entry

end FeedIntake
