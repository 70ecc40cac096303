import RustSql.Jsonb.Codec
import RustSql.Storage.SqliteRecordCodec

/-! The layouts of a JSONB element: its tree with the width of every header. A blob is
valid exactly when it is the bytes of a layout whose sizes fit their headers. -/

namespace RustSql.Jsonb

open RustSql.Foundation RustSql.Types RustSql.Storage RustSql.Storage.Sqlitefmt

/-- How many bytes hold the payload's size: none, 1, 2, 4 or 8. -/
inductive Width where
  | inline | one | two | four | eight
deriving DecidableEq, Repr

namespace Width

/-- The number of size bytes behind the header byte. -/
def size : Width → Nat
  | inline => 0
  | one => 1
  | two => 2
  | four => 4
  | eight => 8

/-- The high nibble of the header byte. -/
def nibble (len : Nat) : Width → Nat
  | inline => len
  | one => 12
  | two => 13
  | four => 14
  | eight => 15

/-- The size can be written in this width. -/
def Fits (len : Nat) : Width → Prop
  | inline => len ≤ 11
  | w => len < 256 ^ w.size

/-- The header of a payload in this width. -/
def header (typ : UInt8) (len : Nat) (w : Width) : List UInt8 :=
  ((UInt8.ofNat (w.nibble len) <<< 4) ||| typ) :: bigEndian w.size len

/-- The shortest width that holds a size. -/
def shortest (len : Nat) : Width :=
  if len ≤ 11 then inline else if len ≤ 0xFF then one else if len ≤ 0xFFFF then two
  else if len ≤ 0xFFFFFFFF then four else eight

/-- The width of a header by its length. -/
def ofHdr (hdr : Nat) : Width :=
  if hdr = 1 then inline else if hdr = 2 then one else if hdr = 3 then two
  else if hdr = 5 then four else eight

@[simp] theorem length_header (typ : UInt8) (len : Nat) (w : Width) :
    (w.header typ len).length = 1 + w.size := by
  rw [header, List.length_cons, bigEndian_length, Nat.add_comm]

@[simp] theorem ofHdr_size (w : Width) : ofHdr (1 + w.size) = w := by
  cases w <;> rfl

theorem minHdr_eq (len : Nat) : minHdr len = 1 + (shortest len).size := by
  unfold minHdr shortest
  split_ifs <;> rfl

theorem fits_shortest {len : Nat} (small : len < 2 ^ 64) : (shortest len).Fits len := by
  unfold shortest
  split_ifs with h1 h2 h3 h4
  · exact h1
  · exact Nat.lt_succ_of_le h2
  · exact Nat.lt_succ_of_le h3
  · exact Nat.lt_succ_of_le h4
  · exact small

theorem pushHeader_eq (typ : UInt8) (len : Nat) :
    pushHeader typ len = (shortest len).header typ len := by
  unfold pushHeader shortest
  split_ifs <;> rfl

theorem nibble_lt {len : Nat} {w : Width} (fits : w.Fits len) : w.nibble len < 16 := by
  cases w with
  | inline => exact Nat.lt_of_le_of_lt (m := 11) fits (by decide)
  | _ => simp [nibble]

/-- A header with size bytes says how many, whatever the size. -/
theorem nibble_wide {w : Width} (wide : w ≠ inline) (len : Nat) :
    ¬ w.nibble len ≤ 11 ∧ sizeBytes (w.nibble len) = w.size ∧ 0 < w.size ∧
      w.nibble len = w.nibble 0 := by
  cases w <;> first | exact absurd rfl wide | simp [nibble, sizeBytes, size]

theorem fits_wide {w : Width} (wide : w ≠ inline) (len : Nat) : w.Fits len ↔ len < 256 ^ w.size := by
  cases w <;> first | exact absurd rfl wide | rfl

end Width

theorem readSize_bigEndian (width n : Nat) : readSize (bigEndian width n) = n % 256 ^ width :=
  fromBeBytes_bigEndian width n

theorem readSize_lt (bytes : List UInt8) : readSize bytes < 256 ^ bytes.length := by
  induction bytes using List.reverseRecOn with
  | nil => decide
  | append_singleton bytes b ih =>
    have byte := b.toNat_lt
    rw [readSize] at ih ⊢
    rw [List.foldl_append, List.length_append, List.length_singleton, Nat.pow_succ]
    simp only [List.foldl_cons, List.foldl_nil]
    omega

/-- Only the low bytes of a number count. -/
theorem bigEndian_add_mul (width n k : Nat) :
    bigEndian width (k * 256 ^ width + n) = bigEndian width n := by
  induction width generalizing k with
  | zero => rfl
  | succ width ih =>
    have shifted : k * 256 ^ (width + 1) + n = (k * 256) * 256 ^ width + n := by ring
    have top : ((k * 256) * 256 ^ width + n) / 256 ^ width = n / 256 ^ width + k * 256 := by
      rw [Nat.add_comm, Nat.add_mul_div_right _ _ (Nat.pow_pos (by decide))]
    have byte : UInt8.ofNat (n / 256 ^ width + k * 256) = UInt8.ofNat (n / 256 ^ width) := by
      rw [← UInt8.toNat_inj, UInt8.toNat_ofNat', UInt8.toNat_ofNat', Nat.add_mul_mod_self_right]
    rw [bigEndian, shifted, top, byte, ih, bigEndian]

theorem bigEndian_readSize (bytes : List UInt8) :
    bigEndian bytes.length (readSize bytes) = bytes := by
  induction bytes with
  | nil => rfl
  | cons b rest ih =>
    have size : readSize (b :: rest) = b.toNat * 256 ^ rest.length + readSize rest := by
      have split := fromBeBytes_append [b] rest
      simpa [fromBeBytes, readSize] using split
    have below := readSize_lt rest
    have high : (b.toNat * 256 ^ rest.length + readSize rest) / 256 ^ rest.length = b.toNat := by
      rw [Nat.add_comm, Nat.add_mul_div_right _ _ (Nat.pow_pos (by decide)),
        Nat.div_eq_of_lt below, Nat.zero_add]
    rw [size, List.length_cons, bigEndian, high, UInt8.ofNat_toNat, bigEndian_add_mul, ih]

/-- A header byte is its two nibbles. -/
theorem nibbles (n typ : Nat) (high : n < 16) (low : typ < 16) :
    ((UInt8.ofNat n <<< 4) ||| UInt8.ofNat typ) &&& 0x0F = UInt8.ofNat typ ∧
      (((UInt8.ofNat n <<< 4) ||| UInt8.ofNat typ) >>> 4).toNat = n := by
  have every : ∀ n typ : Fin 16,
      ((UInt8.ofNat n <<< 4) ||| UInt8.ofNat typ) &&& 0x0F = UInt8.ofNat typ ∧
        (((UInt8.ofNat n <<< 4) ||| UInt8.ofNat typ) >>> 4).toNat = n := by
    decide
  exact every ⟨n, high⟩ ⟨typ, low⟩

theorem nibbles_join (h : UInt8) :
    (UInt8.ofNat (h >>> 4).toNat <<< 4) ||| (h &&& 0x0F) = h ∧ (h >>> 4).toNat < 16 ∧
      (h &&& 0x0F).toNat < 16 :=
  forall_byte (by decide +kernel) h

section Reading

variable {b : List UInt8} {pos len hdr : Nat} {typ : UInt8}

theorem getElem?_of_prefix {head : UInt8} {rest : List UInt8} (start : head :: rest <+: b.drop pos) :
    b[pos]? = some head ∧ rest <+: b.drop (pos + 1) := by
  obtain ⟨tail, eq⟩ := start
  have first : (b.drop pos)[0]? = some head := by rw [← eq]; rfl
  have next : b.drop (pos + 1) = rest ++ tail := by
    rw [← List.drop_drop, ← eq]
    rfl
  exact ⟨by simpa using first, tail, next.symm⟩

theorem prefix_length (start : xs <+: b.drop pos) : xs = [] ∨ pos + xs.length ≤ b.length := by
  have short := start.length_le
  rw [List.length_drop] at short
  by_cases empty : xs = []
  · exact .inl empty
  · have positive := List.length_pos_iff.mpr empty
    exact .inr (by omega)

theorem readHeader_header (w : Width) (low : typ.toNat < 16) (fits : w.Fits len)
    (start : w.header typ len <+: b.drop pos) : readHeader b pos = some (typ, len, 1 + w.size) := by
  obtain ⟨first, rest⟩ := getElem?_of_prefix start
  have halves := nibbles (w.nibble len) typ.toNat (Width.nibble_lt fits) low
  rw [UInt8.ofNat_toNat] at halves
  unfold readHeader
  simp only [first, halves]
  by_cases inline : w = .inline
  · subst inline
    rw [if_pos (show Width.inline.nibble len ≤ 11 from fits)]
    rfl
  · obtain ⟨wide, count, some, _⟩ := Width.nibble_wide inline len
    have below := (Width.fits_wide inline len).mp fits
    have bytes : (b.drop (pos + 1)).take w.size = bigEndian w.size len := by
      have taken := (List.prefix_iff_eq_take.mp rest).symm
      rwa [bigEndian_length] at taken
    have room : pos + 1 + w.size ≤ b.length := by
      have fit := rest.length_le
      rw [bigEndian_length, List.length_drop] at fit
      omega
    rw [if_neg wide, count, if_neg (by omega), bytes, readSize_bigEndian, Nat.mod_eq_of_lt below]

theorem readHeader_some (read : readHeader b pos = some (typ, len, hdr)) :
    ∃ w : Width, hdr = 1 + w.size ∧ w.Fits len ∧ typ.toNat < 16 ∧ w.header typ len <+: b.drop pos := by
  unfold readHeader at read
  cases first : b[pos]? with
  | none => simp [first] at read
  | some h =>
    obtain ⟨join, high, low⟩ := nibbles_join h
    obtain ⟨inside, rfl⟩ := List.getElem?_eq_some_iff.mp first
    have split := List.drop_eq_getElem_cons inside
    simp only [first] at read
    split at read
    · rename_i short
      cases read
      refine ⟨.inline, rfl, short, low, b.drop (pos + 1), ?_⟩
      rw [split]
      simp only [Width.header, Width.nibble, join]
      rfl
    · rename_i wide
      split at read
      · cases read
      · rename_i room
        cases read
        have bytes : ((b.drop (pos + 1)).take (sizeBytes (b[pos] >>> 4).toNat)).length =
            sizeBytes (b[pos] >>> 4).toNat := by
          rw [List.length_take, List.length_drop]
          omega
        have size := readSize_lt ((b.drop (pos + 1)).take (sizeBytes (b[pos] >>> 4).toNat))
        have back := bigEndian_readSize ((b.drop (pos + 1)).take (sizeBytes (b[pos] >>> 4).toNat))
        rw [bytes] at size back
        have known : ∃ w : Width, w ≠ .inline ∧ sizeBytes (b[pos] >>> 4).toNat = w.size ∧
            (b[pos] >>> 4).toNat = w.nibble 0 := by
          have values : (b[pos] >>> 4).toNat = 12 ∨ (b[pos] >>> 4).toNat = 13 ∨
              (b[pos] >>> 4).toNat = 14 ∨ (b[pos] >>> 4).toNat = 15 := by omega
          rcases values with is | is | is | is <;> rw [is]
          · exact ⟨.one, by decide, rfl, rfl⟩
          · exact ⟨.two, by decide, rfl, rfl⟩
          · exact ⟨.four, by decide, rfl, rfl⟩
          · exact ⟨.eight, by decide, rfl, rfl⟩
        obtain ⟨w, notInline, count, nibble⟩ := known
        rw [count] at size back ⊢
        refine ⟨w, rfl, ?_, low, (b.drop (pos + 1)).drop w.size, ?_⟩
        · exact (Width.fits_wide notInline _).mpr size
        · rw [Width.header, (Width.nibble_wide notInline _).2.2.2, ← nibble, join, back, split, List.cons_append,
            List.take_append_drop]

end Reading

/-- An element with the width of its header, and of every header inside. -/
inductive Layout where
  | null (width : Width)
  | truth (width : Width) (value : Bool)
  | number (width : Width) (kind : NumKind) (payload : List UInt8)
  | string (width : Width) (kind : StrKind) (payload : List UInt8)
  | array (width : Width) (items : List Layout)
  | object (width : Width) (pairs : List (Layout × Layout))

namespace Layout

def typ : Layout → Typ
  | null _ => .null
  | truth _ value => .truth value
  | number _ kind _ => .number kind
  | string _ kind _ => .string kind
  | array _ _ => .array
  | object _ _ => .object

def width : Layout → Width
  | null w | truth w _ | number w _ _ | string w _ _ | array w _ | object w _ => w

def isString : Layout → Bool
  | string _ _ _ => true
  | _ => false

end Layout

mutual

def Layout.bytes : Layout → List UInt8
  | .null w => w.header (Typ.code .null) 0
  | .truth w value => w.header (Typ.code (.truth value)) 0
  | .number w kind s => w.header kind.code s.length ++ s
  | .string w kind s => w.header kind.code s.length ++ s
  | .array w items => w.header (Typ.code .array) (itemBytes items).length ++ itemBytes items
  | .object w pairs => w.header (Typ.code .object) (pairBytes pairs).length ++ pairBytes pairs

def itemBytes : List Layout → List UInt8
  | [] => []
  | item :: rest => item.bytes ++ itemBytes rest

def pairBytes : List (Layout × Layout) → List UInt8
  | [] => []
  | (key, value) :: rest => key.bytes ++ value.bytes ++ pairBytes rest

end

def Layout.payload : Layout → List UInt8
  | .null _ | .truth _ _ => []
  | .number _ _ s | .string _ _ s => s
  | .array _ items => itemBytes items
  | .object _ pairs => pairBytes pairs

theorem Layout.bytes_eq (l : Layout) :
    l.bytes = l.width.header l.typ.code l.payload.length ++ l.payload := by
  cases l <;> simp [Layout.bytes, Layout.width, Layout.typ, Layout.payload, Typ.code]

theorem Layout.length_bytes (l : Layout) :
    l.bytes.length = 1 + l.width.size + l.payload.length := by
  rw [l.bytes_eq, List.length_append, Width.length_header]

mutual

/-- The tree of a layout. -/
def Layout.tree : Layout → Jb
  | .null _ => .null
  | .truth _ value => .truth value
  | .number _ kind s => .number kind s
  | .string _ kind s => .string kind s
  | .array _ items => .array (itemTrees items)
  | .object _ pairs => .object (pairTrees pairs)

def itemTrees : List Layout → List Jb
  | [] => []
  | item :: rest => item.tree :: itemTrees rest

def pairTrees : List (Layout × Layout) → List (Jb × Jb)
  | [] => []
  | (key, value) :: rest => (key.tree, value.tree) :: pairTrees rest

end

mutual

/-- Every size fits its header, the numbers are UTF-8 and the keys strings. -/
def Layout.Fits : Layout → Prop
  | .null w | .truth w _ => w.Fits 0
  | .number w _ s => w.Fits s.length ∧ validUtf8 s = true
  | .string w _ s => w.Fits s.length
  | .array w items => w.Fits (itemBytes items).length ∧ itemsFit items
  | .object w pairs => w.Fits (pairBytes pairs).length ∧ pairsFit pairs

def itemsFit : List Layout → Prop
  | [] => True
  | item :: rest => item.Fits ∧ itemsFit rest

def pairsFit : List (Layout × Layout) → Prop
  | [] => True
  | (key, value) :: rest => key.Fits ∧ key.isString = true ∧ value.Fits ∧ pairsFit rest

end

mutual

/-- How deep containers are nested in an element. -/
def Layout.depth : Layout → Nat
  | .array _ items => itemsDepth items
  | .object _ pairs => pairsDepth pairs
  | _ => 0

/-- The depth of a container with these items. -/
def itemsDepth : List Layout → Nat
  | [] => 0
  | item :: rest => max (item.depth + 1) (itemsDepth rest)

def pairsDepth : List (Layout × Layout) → Nat
  | [] => 0
  | (key, value) :: rest => max (key.depth + 1) (max (value.depth + 1) (pairsDepth rest))

end

mutual

/-- All headers are the shortest. -/
def Layout.canonical : Layout → Bool
  | .null w | .truth w _ => w == .shortest 0
  | .number w _ s | .string w _ s => w == .shortest s.length
  | .array w items => w == .shortest (itemBytes items).length && itemsCanonical items
  | .object w pairs => w == .shortest (pairBytes pairs).length && pairsCanonical pairs

def itemsCanonical : List Layout → Bool
  | [] => true
  | item :: rest => item.canonical && itemsCanonical rest

def pairsCanonical : List (Layout × Layout) → Bool
  | [] => true
  | (key, value) :: rest => key.canonical && value.canonical && pairsCanonical rest

end

mutual

/-- The spanned tree of a layout that starts at an offset. -/
def Layout.sp (start : Nat) : Layout → Sp
  | .null _ => .scalar start .null
  | .truth _ value => .scalar start (.truth value)
  | .number _ kind s => .scalar start (.number kind s)
  | .string _ kind s => .scalar start (.string kind s)
  | .array w items => .array start (itemSps (start + 1 + w.size) items)
  | .object w pairs => .object start (pairSps (start + 1 + w.size) pairs)

def itemSps (start : Nat) : List Layout → List Sp
  | [] => []
  | item :: rest => item.sp start :: itemSps (start + item.bytes.length) rest

def pairSps (start : Nat) : List (Layout × Layout) → List (Sp × Sp)
  | [] => []
  | (key, value) :: rest =>
    (key.sp start, value.sp (start + key.bytes.length)) ::
      pairSps (start + key.bytes.length + value.bytes.length) rest

end

mutual

/-- The layout of the element at a position, and the position behind it. -/
def layoutAt (b : List UInt8) : (fuel pos : Nat) → Option (Layout × Nat)
  | 0, _ => none
  | fuel + 1, pos => do
    let (code, len, hdr) ← readHeader b pos
    let start := pos + hdr
    let stop := pos + hdr + len
    if stop > b.length then none
    else
      let w := Width.ofHdr hdr
      match Typ.ofCode code with
      | some .null => if len ≠ 0 then none else some (.null w, stop)
      | some (.truth value) => if len ≠ 0 then none else some (.truth w value, stop)
      | some (.number kind) =>
        if validUtf8 (slice b start stop) then some (.number w kind (slice b start stop), stop)
        else none
      | some (.string kind) => some (.string w kind (slice b start stop), stop)
      | some .array => do
        let (items, p) ← layoutsAt b stop fuel start
        if p ≠ stop then none else some (.array w items, stop)
      | some .object => do
        let (pairs, p) ← layoutPairsAt b stop fuel start
        if p ≠ stop then none else some (.object w pairs, stop)
      | none => none

def layoutsAt (b : List UInt8) (stop : Nat) : (fuel p : Nat) → Option (List Layout × Nat)
  | 0, _ => none
  | fuel + 1, p =>
    if p < stop then do
      let (item, p) ← layoutAt b fuel p
      let (items, p) ← layoutsAt b stop fuel p
      some (item :: items, p)
    else some ([], p)

def layoutPairsAt (b : List UInt8) (stop : Nat) : (fuel p : Nat) →
    Option (List (Layout × Layout) × Nat)
  | 0, _ => none
  | fuel + 1, p =>
    if p < stop then do
      let (key, p) ← layoutAt b fuel p
      if !key.isString then none
      else if p ≥ stop then none
      else do
        let (value, p) ← layoutAt b fuel p
        let (pairs, p) ← layoutPairsAt b stop fuel p
        some ((key, value) :: pairs, p)
    else some ([], p)

end

end RustSql.Jsonb
