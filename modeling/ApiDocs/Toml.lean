/-!
# TOML values

Documents in the format TOML. Numbers and dates are only told apart from other values, since
nothing depends on which number or date it is.
-/

namespace ApiDocs

/-- A value of a document. -/
inductive Toml where
  | text (value : String)
  | number
  | flag (value : Bool)
  | date
  | list (items : List Toml)
  | table (entries : List (String × Toml))
deriving Inhabited

end ApiDocs
