import QueryReplay.Database.Type

/-!
# Errors of the database
-/

namespace QueryReplay

/-- Why a command is refused. -/
inductive DatabaseError where
  /-- The text is no command that the database knows. -/
  | malformed
  | missingTable (name : String)
  | tableExists (name : String)
  | badColumns (table : String)
  | missingColumn (name : String)
  /-- No table of the command is called so. -/
  | missingQualifier (name : String)
  /-- The table called so has no such column. -/
  | missingQualified (qualifier name : String)
  /-- A column to be changed that is not there. -/
  | missingTarget (name : String)
  | wrongWidth (table : String) (columns values : Nat)
  /-- A value that no column of the type can hold. -/
  | conversion (type : ColumnType)
  /-- Two values of which neither comes before the other. -/
  | incomparable
  | nullValue (table column : String)
  | duplicateKey (column value : String)
  /-- A number was asked for, and no row answers one. -/
  | noNumber
deriving DecidableEq, Repr

/-- The wording of the error. -/
def DatabaseError.message : DatabaseError → String
  | malformed => "Parser Error: syntax error"
  | missingTable name => "Catalog Error: Table with name " ++ name ++ " does not exist!"
  | tableExists name => "Catalog Error: Table with name \"" ++ name ++ "\" already exists!"
  | badColumns table => "Parser Error: Table \"" ++ table ++ "\" cannot have these columns"
  | missingColumn name => "Binder Error: Referenced column \"" ++ name ++ "\" not found in FROM clause!"
  | missingQualifier name => "Binder Error: Referenced table \"" ++ name ++ "\" not found!"
  | missingQualified qualifier name =>
    "Binder Error: Table \"" ++ qualifier ++ "\" does not have a column named \"" ++ name ++ "\""
  | missingTarget name => "Binder Error: Referenced update column " ++ name ++ " not found in table!"
  | wrongWidth table columns values =>
    "Binder Error: table " ++ table ++ " has " ++ toString columns ++ " columns but "
      ++ toString values ++ " values were supplied"
  | conversion type => "Conversion Error: Could not convert the value to " ++ type.display
  | incomparable => "Binder Error: Cannot compare these values - an explicit cast is required"
  | nullValue table column => "Constraint Error: NOT NULL constraint failed: " ++ table ++ "." ++ column
  | duplicateKey column value =>
    "Constraint Error: Duplicate key \"" ++ column ++ ": " ++ value ++ "\" violates primary key constraint."
  | noNumber => "Query returned no rows"

instance : ToString DatabaseError := ⟨DatabaseError.message⟩

end QueryReplay
