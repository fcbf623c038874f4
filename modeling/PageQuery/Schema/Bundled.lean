import PageQuery.Schema.Model

/-!
# The bundled models

Two small domains to try requests on.  Articles with authors, tags and comments are the models that the
library is tested with.  Items with makers, specifications and parts are a second domain, made up for
what the first one lacks: columns of all types, choices of numbers, a relation to any model and a private
field, the name of which begins with an underscore.
-/

namespace PageQuery.Bundled

open PageQuery

def plain (type : ColumnType) (default : Value := .none) : ModelField :=
  .column type [] default

/-- A column of texts, empty unless something is given. -/
def words : ModelField := .column .text [] (.text "")

def textChoice (value label : String) : Value × Value := (.text value, .text label)

def numberChoice (value : Int) (label : String) : Value × Value := (.int value, .text label)

def key : String × ModelField := ("id", plain .integer)

def profile : Model where
  name := "Profile"
  fields := [key, ("city", words), ("author", .ownerOf "Author" "profile")]
  required := ["city"]

def author : Model where
  name := "Author"
  fields := [key, ("name", words), ("email", words), ("profile", .toOne "Profile"),
    ("articles", .ownersOf "Article" "author")]
  required := ["name", "email"]

def tag : Model where
  name := "Tag"
  fields := [key, ("name", words), ("articles", .linkedFrom "Article" "tags")]
  required := ["name"]

def article : Model where
  name := "Article"
  fields := [key, ("title", words),
    ("status", .column .text
      [textChoice "draft" "Draft", textChoice "active" "Active", textChoice "archived" "Archived"]
      (.text "draft")),
    ("views", plain .integer (.int 0)),
    ("rating", plain (.decimal 4 2) (.decimal (.finite false 0 0))),
    ("published", plain .boolean (.bool false)),
    ("created_at", plain .dateTime),
    ("author", .toOne "Author"),
    ("tags", .linked "Tag"),
    ("comments", .ownersOf "Comment" "article")]
  required := ["title", "status", "views", "rating", "published", "created_at"]

def comment : Model where
  name := "Comment"
  fields := [key, ("article", .toOne "Article"), ("body", words)]
  required := ["article", "body"]

def maker : Model where
  name := "Maker"
  fields := [key, ("name", words),
    ("country", .column .text
      [textChoice "de" "Germany", textChoice "fr" "France", textChoice "jp" "Japan",
        textChoice "xx" "Unknown"]
      (.text "xx")),
    ("founded", plain .date),
    ("items", .ownersOf "Item" "maker")]
  required := ["name", "country"]

def item : Model where
  name := "Item"
  fields := [key, ("code", plain .uuid), ("label", words),
    ("price", plain (.decimal 8 2)), ("weight", plain .float),
    ("stock", plain .integer (.int 0)),
    ("level", .column .integer
      [numberChoice 1 "Low", numberChoice 5 "Middle", numberChoice 10 "High"] (.int 1)),
    ("active", plain .boolean (.bool true)), ("made", plain .date), ("opens", plain .time),
    ("updated", plain .dateTime), ("length", plain .duration), ("extra", plain .json),
    ("_hidden", plain .integer (.int 0)), ("maker", .toOne "Maker"), ("backup", .toOne "Maker"),
    ("content_type", .toOne "ContentType"), ("object_id", plain .natural),
    ("target", .toAny),
    ("spec", .ownerOf "Spec" "item"), ("parts", .ownersOf "Part" "item")]
  required := ["label", "stock", "level", "active", "_hidden"]

def spec : Model where
  name := "Spec"
  fields := [key, ("item", .toOne "Item"), ("text", words)]
  required := ["item", "text"]

def part : Model where
  name := "Part"
  fields := [key, ("item", .toOne "Item"), ("name", words),
    ("qty", plain .integer (.int 1)), ("fitted", plain .dateTime)]
  required := ["item", "name", "qty"]

/-- The kind of thing that an item stands for. -/
def contentType : Model where
  name := "ContentType"
  fields := [("id", plain .integer), ("app_label", words), ("model", words)]
  required := ["app_label", "model"]

def models : List Model :=
  [profile, author, tag, article, comment, maker, item, spec, part, contentType]

end PageQuery.Bundled
