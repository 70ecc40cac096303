import RustSql.Session.Generate

/-! The statements that apply a change, and the values bound to their placeholders. -/

namespace RustSql.Session

open RustSql.Foundation RustSql.Types

/-- A change as it is applied: each side has a place for every column of the iterator. -/
structure RawChange where
  op : Op
  indirect : Bool
  old : List (Option SessVal)
  new : List (Option SessVal)
deriving DecidableEq, Repr

/-- The table under application. -/
structure ApplyCtx where
  name : Name
  /-- The changeset's column count. -/
  nCol : Nat
  abPk : List UInt8
  azCol : List Name
  bStat1 : Bool
  bPatchset : Bool
  skip : Bool
deriving DecidableEq, Repr

namespace RawChange

def oldAt (raw : RawChange) (i : Nat) : Option SessVal := raw.old.getD i none

def newAt (raw : RawChange) (i : Nat) : Option SessVal := raw.new.getD i none

end RawChange

namespace ApplyCtx

variable (c : ApplyCtx)

def isPk (i : Nat) : Bool := c.abPk.getD i 0 != 0

def countPk : Nat := c.abPk.countP (· ≠ 0)

def allPk : Bool := c.abPk.all (· != 0)

/-- The stat1 view of a changeset as the database has it. -/
def stat1ViewDb (col : Nat) (v : Value) : Value :=
  if c.bStat1 ∧ col = 1 ∧ v = .blob [] then .null else v

/-- `bind_pk_into` a row of NULLs. -/
def bindPk (side : Nat → Option SessVal) (width : Nat) : List Value :=
  (List.range width).map fun i =>
    if c.isPk i then c.stat1ViewDb i (((side i).bind SessVal.toValue).getD .null) else .null

/-- A column and the number of its placeholder. -/
def equation (op : String) (i number : Nat) : Name :=
  0x22 :: c.azCol.getD i [] ++ ascii ("\" " ++ op ++ " ?" ++ toString number)

def columnsWhere (p : Nat → Bool) : List Nat := (List.range c.nCol).filter p

def joined (glue : String) (terms : List Name) : Name := (ascii glue).intercalate terms

def stat1Key : String :=
  "\"tbl\" = ?1 AND \"idx\" IS (CASE WHEN length(?2)=0 AND typeof(?2)='blob' THEN NULL ELSE ?2 END)"

def buildConflictSelect : Name :=
  if c.bStat1 then ascii ("SELECT * FROM \"sqlite_stat1\" WHERE " ++ stat1Key)
  else
    ascii "SELECT * FROM " ++ quoteIdent c.name ++ ascii " WHERE " ++
      joined " AND " ((c.columnsWhere c.isPk).map fun i => c.equation "=" i (i + 1))

def buildDeleteSql : Name :=
  if c.bStat1 then
    ascii ("DELETE FROM \"sqlite_stat1\" WHERE " ++ stat1Key ++ " AND (?4 OR \"stat\" IS ?3)")
  else
    ascii "DELETE FROM " ++ quoteIdent c.name ++ ascii " WHERE " ++
      joined " AND " ((c.columnsWhere c.isPk).map fun i => c.equation "=" i (i + 1)) ++
      if c.countPk < c.nCol then
        ascii (" AND (?" ++ toString (c.nCol + 1) ++ " OR ") ++
          joined " AND " ((c.columnsWhere fun i => !c.isPk i).map fun i =>
            c.equation "IS" i (i + 1)) ++ ascii ")"
      else []

def buildInsertSql : Name :=
  if c.bStat1 then
    ascii ("INSERT INTO \"sqlite_stat1\" VALUES(?1, CASE WHEN length(?2)=0 AND " ++
      "typeof(?2)='blob' THEN NULL ELSE ?2 END, ?3)")
  else
    ascii "INSERT INTO " ++ quoteIdent c.name ++ ascii "(" ++
      joined ", " ((List.range c.nCol).map fun i => 0x22 :: c.azCol.getD i [] ++ ascii "\"") ++
      ascii ") VALUES(" ++
      joined ", " ((List.range c.nCol).map fun i => ascii ("?" ++ toString (i + 1))) ++ ascii ")"

/-- Is a column set by an update? -/
def sets (raw : RawChange) (i : Nat) : Bool := !c.isPk i && (raw.newAt i).isSome

/-- Does an update look for the old value of a column? -/
def verifies (raw : RawChange) (verify : Bool) (i : Nat) : Bool :=
  c.isPk i || (verify && (raw.oldAt i).isSome)

def buildUpdateSql (raw : RawChange) (verify : Bool) : Name :=
  let set := c.columnsWhere (c.sets raw)
  let first := 0x22 :: c.azCol.getD 0 []
  ascii "UPDATE " ++ quoteIdent c.name ++ ascii " SET " ++
    (if set = [] then first ++ ascii "\" = " ++ first ++ ascii "\" WHERE 0 AND '"
      else joined ", " (set.map fun i => c.equation "=" i (i * 2 + 1)) ++ ascii " WHERE ") ++
    joined " AND " ((c.columnsWhere (c.verifies raw verify)).map fun i =>
      c.equation "IS" i (i * 2 + 2))

/-- The statements that change rows. -/
inductive RowStatement : Name → Prop
  | delete (c : ApplyCtx) : RowStatement c.buildDeleteSql
  | insert (c : ApplyCtx) : RowStatement c.buildInsertSql
  | update (c : ApplyCtx) (raw : RawChange) (verify : Bool) : RowStatement (c.buildUpdateSql raw verify)

/-- The flag behind the columns, when there are columns outside the key. -/
def verifyFlag (flag : Int64) : Value := if c.countPk < c.nCol then .integer flag else .null

/-- The values of all columns of a side; none when one has no value. -/
def sideValues (side : Nat → Option SessVal) : Option (List Value) :=
  (List.range c.nCol).mapM fun i => (side i).bind SessVal.toValue

def deleteKeyParams (side : Nat → Option SessVal) : List Value :=
  c.bindPk side c.nCol ++ [c.verifyFlag 1]

/-- The whole old row of a deletion; none when a field has no value. -/
def deleteRowParams (raw : RawChange) : Option (List Value) :=
  ((raw.old.take c.nCol).mapM fun v : Option SessVal => v.bind SessVal.toValue).map fun values =>
    values ++ List.replicate (c.nCol - values.length) .null ++
      [c.verifyFlag (if c.allPk then 1 else 0)]

def updateParams (raw : RawChange) (verify : Bool) : List Value :=
  (List.range c.nCol).flatMap fun i =>
    [((raw.newAt i).bind SessVal.toValue).getD .null,
      if c.verifies raw verify i then ((raw.oldAt i).bind SessVal.toValue).getD .null else .null]

def insertParams (values : List Value) : List Value := values.mapIdx c.stat1ViewDb

end ApplyCtx

end RustSql.Session
