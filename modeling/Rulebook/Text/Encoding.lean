/-!
# Text encodings

A codec gives the characters of a byte sequence or says which bytes are at fault and why. Which
codecs there are, and under which names, is up to the machine that reads a file. A few are brought
along. Of these UTF-8 is strict: no surrogates, no overlong forms, nothing above U+10FFFF, and the
faulty bytes are the longest beginning of a character that is still possible.
-/

namespace Rulebook.Text

/-! ### Codecs -/

abbrev Bytes := List UInt8

/-- Faulty bytes: what the codec calls itself, why it stops, where the bytes begin, how many they
are, and the first of them. -/
structure DecodingFault where
  codec : String
  reason : String
  start : Nat
  length : Nat
  byte : UInt8
  deriving DecidableEq, Repr

def DecodingFault.message (f : DecodingFault) : String :=
  let place :=
    if f.length = 1 then
      "byte 0x" ++ String.ofList ((Nat.toDigits 16 (f.byte.toNat + 0x100)).drop 1) ++
        " in position " ++ toString f.start
    else
      "bytes in position " ++ toString f.start ++ "-" ++ toString (f.start + f.length - 1)
  "'" ++ f.codec ++ "' codec can't decode " ++ place ++ ": " ++ f.reason

/-- Why a codec gives no text. -/
inductive DecodingFailure where
  | bytes (f : DecodingFault)
  /-- The codec stops for a reason of its own, which is not about certain bytes. -/
  | other (message : String)
  deriving DecidableEq, Repr

/-- The characters of bytes in an encoding. -/
abbrev Codec := Bytes → Except DecodingFailure (List Char)

/-- The codecs of a machine: the one of a name, or the complaint about a name that has none. -/
abbrev Codecs := String → Except String Codec

/-! ### Names -/

/-- The encodings that are brought along. -/
inductive Encoding where
  | utf8
  /-- UTF-8 after an optional byte order mark. -/
  | utf8Marked
  | latin1
  | ascii
  | utf16LittleEndian
  deriving DecidableEq, Repr

namespace Encoding

def name : Encoding → String
  | utf8 | utf8Marked => "utf-8"
  | latin1 => "latin-1"
  | ascii => "ascii"
  | utf16LittleEndian => "utf-16-le"

def all : List Encoding := [utf8, utf8Marked, latin1, ascii, utf16LittleEndian]

def properName : Encoding → String
  | utf8 => "utf_8"
  | utf8Marked => "utf_8_sig"
  | latin1 => "latin_1"
  | ascii => "ascii"
  | utf16LittleEndian => "utf_16_le"

def aliases : Encoding → List String
  | utf8 => ["u8", "utf", "utf8", "utf8_ucs2", "utf8_ucs4", "cp65001"]
  | utf8Marked => []
  | latin1 =>
    ["8859", "cp819", "csisolatin1", "ibm819", "iso8859", "iso8859_1", "iso_8859_1",
     "iso_8859_1_1987", "iso_ir_100", "l1", "latin", "latin1"]
  | ascii =>
    ["646", "ansi_x3.4_1968", "ansi_x3_4_1968", "ansi_x3.4_1986", "cp367", "csascii", "ibm367",
     "iso646_us", "iso_646.irv_1991", "iso_ir_6", "us", "us_ascii"]
  | utf16LittleEndian => ["unicodelittleunmarked", "utf_16le"]

/-- A name in lower case, with one `_` between its words. Words are made of letters, digits and
points; `started` says that a word came before, and `gap` that other signs have followed it. -/
def plainFrom (started gap : Bool) : List Char → List Char
  | [] => []
  | c :: cs =>
    if c.isAlphanum || c = '.' then
      (if started && gap then ['_'] else []) ++ c.toLower :: plainFrom true false cs
    else plainFrom started true cs

/-- The spelling under which an encoding is looked up. -/
def plainName (s : String) : String := String.ofList (plainFrom false false s.toList)

def ofAlias? (s : String) : Option Encoding := all.find? fun e => s ∈ e.aliases

/-- The encoding of a name. Neither letter case nor the signs between words matter. In an alias a
point may stand for such a sign. -/
def ofName? (s : String) : Option Encoding :=
  let name := plainName s
  (ofAlias? name).orElse fun _ =>
    (ofAlias? (name.map fun c => if c = '.' then '_' else c)).orElse fun _ =>
      all.find? fun e => e.properName = name

end Encoding

/-! ### Reading by characters -/

/-- Why bytes are not a text. -/
inductive DecodingCause where
  | invalidStart | invalidContinuation | unexpectedEnd | notAscii | truncated | illegalPair
  | illegalSurrogate

def DecodingCause.message : DecodingCause → String
  | invalidStart => "invalid start byte"
  | invalidContinuation => "invalid continuation byte"
  | unexpectedEnd => "unexpected end of data"
  | notAscii => "ordinal not in range(128)"
  | truncated => "truncated data"
  | illegalPair => "illegal encoding"
  | illegalSurrogate => "illegal UTF-16 surrogate"

/-- The outcome of reading one character: the character and how many further bytes it takes, or
the cause and the number of faulty bytes. -/
abbrev CharRead := Except (DecodingCause × Nat) (Char × Nat)

def decodeWith (codec : String) (read : UInt8 → Bytes → CharRead) (offset : Nat) : Codec
  | [] => .ok []
  | b :: rest =>
    match read b rest with
    | .error (cause, length) => .error (.bytes ⟨codec, cause.message, offset, length, b⟩)
    | .ok (c, more) => (decodeWith codec read (offset + 1 + more) (rest.drop more)).map (c :: ·)
termination_by bytes => bytes.length

/-! ### One character -/

def latin1Char (b : UInt8) (_ : Bytes) : CharRead := .ok (Char.ofNat b.toNat, 0)

def asciiChar (b : UInt8) (_ : Bytes) : CharRead :=
  if b.toNat < 0x80 then .ok (Char.ofNat b.toNat, 0) else .error (.notAscii, 1)

/-- How many bytes follow a first byte, unless no character begins with it. -/
def continuations? (first : Nat) : Option Nat :=
  if first < 0x80 then some 0
  else if first < 0xc2 then none
  else if first < 0xe0 then some 1
  else if first < 0xf0 then some 2
  else if first < 0xf5 then some 3
  else none

/-- The bytes that may stand second. The bounds exclude overlong forms, surrogates and code points
above U+10FFFF. -/
def mayFollow (first second : Nat) : Bool :=
  (if first = 0xe0 then 0xa0 else if first = 0xf0 then 0x90 else 0x80) ≤ second &&
    second ≤ (if first = 0xed then 0x9f else if first = 0xf4 then 0x8f else 0xbf)

def continuing (first : Nat) : Bytes → Bytes
  | [] => []
  | b :: rest =>
    if mayFollow first b.toNat then b :: rest.takeWhile fun c => 0x80 ≤ c && c ≤ 0xbf else []

def utf8Char (b : UInt8) (rest : Bytes) : CharRead :=
  match continuations? b.toNat with
  | none => .error (.invalidStart, 1)
  | some n =>
    let more := continuing b.toNat (rest.take n)
    if more.length = n then
      let high := if n = 0 then b.toNat else b.toNat % (1 <<< (6 - n))
      .ok (Char.ofNat (more.foldl (fun code c => code * 0x40 + c.toNat % 0x40) high), n)
    else if more.length = rest.length then .error (.unexpectedEnd, 1 + more.length)
    else .error (.invalidContinuation, 1 + more.length)

/-- A character in one or two pairs of bytes, the lower byte first. -/
def utf16Char (b : UInt8) : Bytes → CharRead
  | [] => .error (.truncated, 1)
  | c :: rest =>
    let unit := c.toNat * 0x100 + b.toNat
    if unit < 0xd800 || 0xe000 ≤ unit then .ok (Char.ofNat unit, 1)
    else if 0xdc00 ≤ unit then .error (.illegalPair, 2)
    else
      match rest with
      | d :: e :: _ =>
        let low := e.toNat * 0x100 + d.toNat
        if 0xdc00 ≤ low && low < 0xe000 then
          .ok (Char.ofNat (0x10000 + (unit - 0xd800) * 0x400 + (low - 0xdc00)), 3)
        else .error (.illegalSurrogate, 2)
      | rest => .error (.unexpectedEnd, 2 + rest.length)

/-! ### Whole texts -/

/-- The bytes after a byte order mark. The beginning of a mark alone is no text either. -/
def withoutMark (bytes : Bytes) : Bytes :=
  let mark : Bytes := [0xef, 0xbb, 0xbf]
  if mark.isPrefixOf bytes then bytes.drop 3
  else if bytes.isPrefixOf mark then []
  else bytes

def Encoding.read : Encoding → UInt8 → Bytes → CharRead
  | utf8 | utf8Marked => utf8Char
  | latin1 => latin1Char
  | ascii => asciiChar
  | utf16LittleEndian => utf16Char

/-- The codec of an encoding. After a byte order mark positions count from its end. -/
def Encoding.decode (e : Encoding) : Codec := fun bytes =>
  decodeWith e.name e.read 0 (if e = .utf8Marked then withoutMark bytes else bytes)

/-- The codecs that are brought along, under all their names. -/
def Encoding.codecs : Codecs := fun name =>
  match ofName? name with
  | none => .error ("unknown encoding: " ++ name)
  | some e => .ok e.decode

/-! ### Line ends -/

def withLineFeeds : List Char → List Char
  | [] => []
  | '\r' :: '\n' :: rest => '\n' :: withLineFeeds rest
  | c :: rest => (if c = '\r' then '\n' else c) :: withLineFeeds rest

theorem carriageReturn_notMem_withLineFeeds (cs : List Char) : '\r' ∉ withLineFeeds cs := by
  fun_induction withLineFeeds cs with
  | case1 => simp
  | case2 rest ih => simp [ih]
  | case3 c rest _ ih =>
    by_cases h : c = '\r'
    · simp [h, ih]
    · simp [h, ih, Ne.symm h]

end Rulebook.Text
