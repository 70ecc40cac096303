import RustSql.Types.OrderKey

/-! Text search vectors and queries, the match of the one against the other, and the candidates for
a query out of an inverted index: posting lists, and the algebra over them with a set of all rows
that nothing is known of. -/

namespace RustSql.Executor.Fts

/-- A parsed tsvector: each lexeme once, by its UTF-8 bytes, with its positions. -/
structure TsVector where
  lexemes : List (List UInt8 × List UInt16)
  distinct : (lexemes.map Prod.fst).Nodup

/-- A parsed tsquery; a lexeme with `initial` set is a prefix term. -/
inductive TsQuery where
  | lex (word : List UInt8) (initial : Bool)
  | and (a b : TsQuery)
  | or (a b : TsQuery)
  | not (n : TsQuery)
  | phrase (elems : List TsQuery)

namespace TsVector

def has (v : TsVector) (word : List UInt8) : Bool := v.lexemes.any fun entry => entry.1 = word

def hasPrefix (v : TsVector) (front : List UInt8) : Bool :=
  v.lexemes.any fun entry => front <+: entry.1

def hasAt (v : TsVector) (word : List UInt8) (pos : UInt16) : Bool :=
  v.lexemes.any fun entry => entry.1 = word && entry.2.contains pos

def hasPrefixAt (v : TsVector) (front : List UInt8) (pos : UInt16) : Bool :=
  v.lexemes.any fun entry => front <+: entry.1 && entry.2.contains pos

end TsVector

def MAX_POSITION : UInt16 := 16383

mutual

/-- Whether a phrase element holds at one position; positions wrap. -/
def queryMatchesAt (v : TsVector) : TsQuery → UInt16 → Bool
  | .lex word initial, pos => if initial then v.hasPrefixAt word pos else v.hasAt word pos
  | .and a b, pos => queryMatchesAt v a pos && queryMatchesAt v b pos
  | .or a b, pos => queryMatchesAt v a pos || queryMatchesAt v b pos
  | .not _, _ => false
  | .phrase elems, pos => elementsMatchAt v elems pos 0

/-- Whether the elements from the `i`th on hold from a position on. -/
def elementsMatchAt (v : TsVector) : List TsQuery → UInt16 → Nat → Bool
  | [], _, _ => true
  | e :: rest, pos, i => queryMatchesAt v e (pos + UInt16.ofNat i) && elementsMatchAt v rest pos (i + 1)

end

def tsMatch (v : TsVector) : TsQuery → Bool
  | .lex word initial => if initial then v.hasPrefix word else v.has word
  | .and a b => tsMatch v a && tsMatch v b
  | .or a b => tsMatch v a || tsMatch v b
  | .not n => !tsMatch v n
  | .phrase elems =>
    let maxStart := MAX_POSITION.toNat - (UInt16.ofNat elems.length - 1).toNat
    (List.range' 1 maxStart).any fun p => elementsMatchAt v elems (UInt16.ofNat p) 0

end RustSql.Executor.Fts

namespace RustSql.Executor.Fts

open RustSql.Foundation RustSql.Types

/-- The index keys of a row: one for each lexeme. -/
def indexEntryKeys (v : TsVector) : List (List UInt8) :=
  v.lexemes.map fun entry => Value.encodeOrderKey (.text entry.1)

abbrev Entry := List UInt8 × Int64

/-- Entries go by key, and by rowid under one key. -/
def entryOrder (one two : Entry) : Ordering :=
  (List.compareLex compare one.1 two.1).then (compare one.2.toInt two.2.toInt)

/-- `scan_index_from` of the sorted entries. -/
def scanIndexFrom (bt : List Entry) (key : List UInt8) : List Entry := scanFrom compare Prod.fst key bt

/-- `lookup_index_into`. -/
def lookupIndex (bt : List Entry) (key : List UInt8) : List Int64 :=
  ((scanIndexFrom bt key).takeWhile fun entry => key <+: entry.1).map Prod.snd

def postingsExact (bt : List Entry) (term : List UInt8) : List Int64 :=
  lookupIndex bt (Value.encodeOrderKey (.text term))

/-- `dedup`: an element equal to the one kept before it goes. -/
def dedupFrom (last : Option Int64) : List Int64 → List Int64
  | [] => []
  | a :: l => if last = some a then dedupFrom last l else a :: dedupFrom (some a) l

/-- `sort_unstable` and `dedup`. -/
def sortDedup (rowids : List Int64) : List Int64 :=
  dedupFrom none (rowids.mergeSort fun one two => decide (one ≤ two))

/-- The scan starts at the bare bytes of the prefix, and ends at the first term without them. -/
def postingsPrefix (bt : List Entry) (front : List UInt8) : List Int64 :=
  sortDedup (((scanIndexFrom bt (0x02 :: front)).takeWhile fun entry =>
    entry.1.head? = some 0x02 && front <+: entry.1.drop 1).map Prod.snd)

/-- `intersect_sorted`: one step of its loop at a time. -/
def intersectSorted : List Int64 → List Int64 → List Int64
  | [], _ => []
  | _, [] => []
  | a :: l, b :: r =>
    if a = b then a :: intersectSorted l r
    else if a < b then intersectSorted l (b :: r)
    else intersectSorted (a :: l) r
termination_by l r => l.length + r.length

/-- The union behind the element that was pushed last. -/
def mergeFrom (last : Option Int64) : List Int64 → List Int64 → List Int64
  | [], [] => []
  | a :: l, [] => if last = some a then mergeFrom last l [] else a :: mergeFrom (some a) l []
  | [], b :: r => if last = some b then mergeFrom last [] r else b :: mergeFrom (some b) [] r
  | a :: l, b :: r =>
    if a ≤ b then
      if last = some a then mergeFrom last l (b :: r) else a :: mergeFrom (some a) l (b :: r)
    else if last = some b then mergeFrom last (a :: l) r else b :: mergeFrom (some b) (a :: l) r
termination_by l r => l.length + r.length

def mergeSortedDedup (l r : List Int64) : List Int64 := mergeFrom none l r

/-- `CandSet`: all rows, of which nothing is known, or some rows. -/
inductive CandSet where
  | all
  | rows (rowids : List Int64)
deriving DecidableEq

/-- What must hold of both. -/
def CandSet.inter : CandSet → CandSet → CandSet
  | .all, x => x
  | x, .all => x
  | .rows l, .rows r => .rows (intersectSorted l r)

def CandSet.union : CandSet → CandSet → CandSet
  | .rows l, .rows r => .rows (mergeSortedDedup l r)
  | _, _ => .all

mutual

def evalCandidates (bt : List Entry) : TsQuery → CandSet
  | .not _ => .all
  | .lex word initial => .rows (if initial then postingsPrefix bt word else postingsExact bt word)
  | .and a b => (evalCandidates bt a).inter (evalCandidates bt b)
  | .or a b => (evalCandidates bt a).union (evalCandidates bt b)
  | .phrase elems => phraseCandidates bt .all elems

/-- The elements of a phrase, into what the ones before have left. -/
def phraseCandidates (bt : List Entry) (acc : CandSet) : List TsQuery → CandSet
  | [] => acc
  | e :: rest => phraseCandidates bt (acc.inter (evalCandidates bt e)) rest

end

/-- `inverted_candidates` of the parsed query. -/
def invertedCandidates (bt : List Entry) (q : TsQuery) : Option (List Int64) :=
  match evalCandidates bt q with
  | .all => none
  | .rows rowids => some rowids

end RustSql.Executor.Fts
