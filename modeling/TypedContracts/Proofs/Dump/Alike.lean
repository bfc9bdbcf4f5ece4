import Mathlib
import TypedContracts.Dump.Module

/-!
Dumps that differ only where nothing is read: in the locations and notes of an identifier, behind the
type of a row, in bodies, in value entries, in later library records, in rows of other tags and in
the order of rows whose tags differ. Each relation is between two nodes of one role; whatever is
written twice in a rule, once with a prime, may differ in any way.
-/
namespace TypedContracts.Dump

abbrev Table := List (String × (SExp → SExp → Prop))

def Foreign (table : Table) (row : SExp) : Prop := ∀ tag ∈ row.tag, table.lookup tag = none

/-- Only the first row of a tag is looked at, and rows of other tags never. -/
def Unread (table : Table) (before : List SExp) (row : SExp) : Prop :=
  Foreign table row ∨ ∃ earlier ∈ before, earlier.tag = row.tag

inductive RowAlike (table : Table) : SExp → SExp → Prop where
  | same (row : SExp) : RowAlike table row row
  | value {tag : String} {Alike : SExp → SExp → Prop} {value value' : SExp}
      (known : table.lookup tag = some Alike) (alike : Alike value value')
      (more more' : List SExp) :
      RowAlike table (.list (.atom tag :: value :: more)) (.list (.atom tag :: value' :: more'))

inductive RowsAlike (table : Table) : List SExp → List SExp → Prop where
  | kept {rows rows' : List SExp} (each : List.Forall₂ (RowAlike table) rows rows') :
      RowsAlike table rows rows'
  | unread {before part part' : List SExp} (old : ∀ row ∈ part, Unread table before row)
      (new : ∀ row ∈ part', Foreign table row) (after : List SExp) :
      RowsAlike table (before ++ (part ++ after)) (before ++ (part' ++ after))
  | swapped {row other : SExp} (apart : row.tag ≠ other.tag) (before after : List SExp) :
      RowsAlike table (before ++ row :: other :: after) (before ++ other :: row :: after)
  | trans {rows middle rows' : List SExp} (first : RowsAlike table rows middle)
      (second : RowsAlike table middle rows') : RowsAlike table rows rows'

inductive NodeAlike (table : Table) : SExp → SExp → Prop where
  | mk {rows rows' : List SExp} (alike : RowsAlike table rows rows') :
      NodeAlike table (.list rows) (.list rows')

inductive EachAlike (Alike : SExp → SExp → Prop) : SExp → SExp → Prop where
  | mk {nodes nodes' : List SExp} (each : List.Forall₂ Alike nodes nodes') :
      EachAlike Alike (.list nodes) (.list nodes')

inductive IdentAlike : SExp → SExp → Prop where
  | same (node : SExp) : IdentAlike node node
  | noted (kind name : SExp) (inner inner' outer outer' : List SExp) :
      IdentAlike (.list (.atom "Ident" :: .list (kind :: name :: inner) :: outer))
        (.list (.atom "Ident" :: .list (kind :: name :: inner') :: outer'))

mutual
inductive TypeAlike : SExp → SExp → Prop where
  | same (node : SExp) : TypeAlike node node
  | primitive (name : SExp) (more more' : List SExp) :
      TypeAlike (.list (.atom "PrimType" :: name :: more))
        (.list (.atom "PrimType" :: name :: more'))
  | address (more more' : List SExp) :
      TypeAlike (.list (.atom "Address" :: more)) (.list (.atom "Address" :: more'))
  | nullary {ident ident' : SExp} (named : IdentAlike ident ident') :
      TypeAlike (.list [.atom "ADT", ident]) (.list [.atom "ADT", ident'])
  | application {ident ident' : SExp} {nodes nodes' : List SExp}
      (named : IdentAlike ident ident') (each : TypesAlike nodes nodes')
      (more more' : List SExp) :
      TypeAlike (.list (.atom "ADT" :: ident :: .list nodes :: more))
        (.list (.atom "ADT" :: ident' :: .list nodes' :: more'))
  | map {key key' value value' : SExp} (first : TypeAlike key key')
      (second : TypeAlike value value') :
      TypeAlike (.list [.atom "MapType", key, value]) (.list [.atom "MapType", key', value'])
inductive TypesAlike : List SExp → List SExp → Prop where
  | nil : TypesAlike [] []
  | cons {node node' : SExp} {nodes nodes' : List SExp} (first : TypeAlike node node')
      (rest : TypesAlike nodes nodes') : TypesAlike (node :: nodes) (node' :: nodes')
end

inductive SlotAlike : SExp → SExp → Prop where
  | same (row : SExp) : SlotAlike row row
  | mk {ident ident' type type' : SExp} (named : IdentAlike ident ident')
      (typed : TypeAlike type type') (more more' : List SExp) :
      SlotAlike (.list (ident :: type :: more)) (.list (ident' :: type' :: more'))

def componentTable : Table :=
  [("comp_name", IdentAlike), ("comp_params", EachAlike SlotAlike)]

/-- A component, whose body may differ. -/
inductive ComponentAlike : SExp → SExp → Prop where
  | mk {kind kind' name name' params params' : SExp} (first : RowAlike componentTable kind kind')
      (second : RowAlike componentTable name name')
      (third : RowAlike componentTable params params') (body body' : List SExp) :
      ComponentAlike (.list (kind :: name :: params :: body))
        (.list (kind' :: name' :: params' :: body'))

inductive ArgumentsAlike : SExp → SExp → Prop where
  | mk {nodes nodes' : List SExp} (each : TypesAlike nodes nodes') :
      ArgumentsAlike (.list nodes) (.list nodes')

def clauseTable : Table := [("cname", IdentAlike), ("c_arg_types", ArgumentsAlike)]

inductive EntryAlike : SExp → SExp → Prop where
  | same (entry : SExp) : EntryAlike entry entry
  | value (parts parts' : List SExp) :
      EntryAlike (.list (.atom "LibVar" :: parts)) (.list (.atom "LibVar" :: parts'))
  | type {ident ident' clauses clauses' : SExp} (named : IdentAlike ident ident')
      (each : EachAlike (NodeAlike clauseTable) clauses clauses') (more more' : List SExp) :
      EntryAlike (.list (.atom "LibTyp" :: ident :: clauses :: more))
        (.list (.atom "LibTyp" :: ident' :: clauses' :: more'))

def libraryTable : Table := [("lentries", EachAlike EntryAlike)]

inductive LibrariesAlike : SExp → SExp → Prop where
  | same (libs : SExp) : LibrariesAlike libs libs
  | first {library library' : SExp} (alike : NodeAlike libraryTable library library')
      (more more' : List SExp) :
      LibrariesAlike (.list (library :: more)) (.list (library' :: more'))

def contractTable : Table :=
  [("cname", IdentAlike), ("cparams", EachAlike SlotAlike), ("cfields", EachAlike SlotAlike),
    ("ccomps", EachAlike ComponentAlike)]

def moduleTable : Table := [("libs", LibrariesAlike), ("contr", NodeAlike contractTable)]

/-- Modules that differ only where nothing is read. -/
abbrev ModuleAlike : SExp → SExp → Prop := NodeAlike moduleTable

end TypedContracts.Dump
