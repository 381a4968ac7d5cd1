import CHttp.Abort
import CHttp.Common.Cbuffer
import CHttp.Http.HeaderList
import Mathlib.Data.Int.Notation
import Mathlib.Logic.Function.Basic

/-!
# Parsing a URL

`url_parser.c` and `url.c`. `c_http_parser_parse_url` runs a first automaton over the whole URL,
which finds the scheme, the authority, the path, the query and the fragment, and a second one over
the authority, which finds the user information, the host and the port. Offsets and lengths are
stored in 16 bits as the bytes go by, so what a rejected URL leaves behind is part of the result.
`Url_new` takes the fields by their lengths.

The parser is compiled with `C_HTTP_URL_PARSER_STRICT`, as its header sets it.
-/

namespace CHttp

/-! ### Character classes -/

/-- A character literal. -/
def chr (c : Char) : UInt8 := c.toNat.toUInt8

/-- `LOWER`. -/
def lower (c : UInt8) : UInt8 := c ||| 0x20

/-- `IS_ALPHA`. -/
def isAlpha (c : UInt8) : Bool := chr 'a' ≤ lower c && lower c ≤ chr 'z'

/-- `IS_NUM`. -/
def isNum (c : UInt8) : Bool := chr '0' ≤ c && c ≤ chr '9'

/-- `IS_ALPHANUM`. -/
def isAlphanum (c : UInt8) : Bool := isAlpha c || isNum c

/-- `IS_HEX`. -/
def isHex (c : UInt8) : Bool := isNum c || (chr 'a' ≤ lower c && lower c ≤ chr 'f')

/-- `IS_MARK`. -/
def isMark (c : UInt8) : Bool := (ascii "-_.!~*'()").contains c

/-- `IS_USERINFO_CHAR`. -/
def isUserinfoChar (c : UInt8) : Bool := isAlphanum c || isMark c || (ascii "%;:&=+$,").contains c

/-- `IS_HOST_CHAR`. -/
def isHostChar (c : UInt8) : Bool := isAlphanum c || c = chr '.' || c = chr '-'

/-- `normal_url_char`; the bytes from 128 on are left out of the initialiser. -/
def normalUrlChar : List UInt8 :=
  [0, 0, 0, 0, 246, 255, 255, 127, 255, 255, 255, 255, 255, 255, 255, 127]

/-- `IS_URL_CHAR`: the byte's bit in the table. -/
def isUrlChar (c : UInt8) : Bool := (normalUrlChar.getD (c.toNat / 8) 0).toNat.testBit (c.toNat % 8)

/-! ### The first automaton -/

/-- The states of `parse_url_char`. -/
inductive UrlState
  | dead
  | spacesBeforeUrl
  | schema
  | schemaSlash
  | schemaSlashSlash
  | serverStart
  | server
  | serverWithAt
  | path
  | queryStringStart
  | queryString
  | fragmentStart
  | fragment
  deriving DecidableEq, Repr

/-- The cases `s_req_server_start` and `s_req_server` of `parse_url_char`, into which
`s_req_server_with_at` falls through. -/
def parseServerChar (ch : UInt8) : UrlState :=
  if ch = chr '/' then .path
  else if ch = chr '?' then .queryStringStart
  else if ch = chr '@' then .serverWithAt
  else if isUserinfoChar ch || ch = chr '[' || ch = chr ']' then .server
  else .dead

/-- The `switch` of `parse_url_char`. -/
def parseUrlSwitch (s : UrlState) (ch : UInt8) : UrlState :=
  match s with
  | .spacesBeforeUrl =>
    if ch = chr '/' ∨ ch = chr '*' then .path
    else if isAlpha ch then .schema
    else .dead
  | .schema =>
    if isAlpha ch then .schema
    else if ch = chr ':' then .schemaSlash
    else .dead
  | .schemaSlash => if ch = chr '/' then .schemaSlashSlash else .dead
  | .schemaSlashSlash => if ch = chr '/' then .serverStart else .dead
  | .serverWithAt => if ch = chr '@' then .dead else parseServerChar ch
  | .serverStart => parseServerChar ch
  | .server => parseServerChar ch
  | .path =>
    if isUrlChar ch then .path
    else if ch = chr '?' then .queryStringStart
    else if ch = chr '#' then .fragmentStart
    else .dead
  | .queryStringStart | .queryString =>
    if isUrlChar ch then .queryString
    else if ch = chr '?' then .queryString
    else if ch = chr '#' then .fragmentStart
    else .dead
  | .fragmentStart =>
    if isUrlChar ch then .fragment
    else if ch = chr '?' then .fragment
    else if ch = chr '#' then .fragmentStart
    else .dead
  | .fragment =>
    if isUrlChar ch then .fragment
    else if ch = chr '?' ∨ ch = chr '#' then .fragment
    else .dead
  | .dead => .dead

/-- `parse_url_char`. -/
def parseUrlChar (s : UrlState) (ch : UInt8) : UrlState :=
  if ch = chr ' ' ∨ ch = chr '\r' ∨ ch = chr '\n' then .dead
  else if ch = chr '\t' ∨ ch = 12 then .dead
  else parseUrlSwitch s ch

/-! ### The second automaton -/

/-- `enum http_host_state`. -/
inductive HostState
  | dead
  | userinfoStart
  | userinfo
  | hostStart
  | v6Start
  | host
  | v6
  | v6End
  | v6ZoneStart
  | v6Zone
  | portStart
  | port
  deriving DecidableEq, Repr

/-- The bytes of an IPv6 address. -/
def isV6Char (ch : UInt8) : Bool := isHex ch || ch = chr ':' || ch = chr '.'

/-- The bytes of a zone. -/
def isZoneChar (ch : UInt8) : Bool :=
  isAlphanum ch || ch = chr '%' || ch = chr '.' || ch = chr '-' || ch = chr '_' || ch = chr '~'

/-- `c_http_parse_host_char`. -/
def parseHostChar (s : HostState) (ch : UInt8) : HostState :=
  match s with
  | .userinfo | .userinfoStart =>
    if ch = chr '@' then .hostStart
    else if isUserinfoChar ch then .userinfo
    else .dead
  | .hostStart =>
    if ch = chr '[' then .v6Start
    else if isHostChar ch then .host
    else .dead
  | .host =>
    if isHostChar ch then .host
    else if ch = chr ':' then .portStart
    else .dead
  | .v6End => if ch = chr ':' then .portStart else .dead
  | .v6 =>
    if ch = chr ']' then .v6End
    else if isV6Char ch then .v6
    else if ch = chr '%' then .v6ZoneStart
    else .dead
  | .v6Start => if isV6Char ch then .v6 else .dead
  | .v6Zone =>
    if ch = chr ']' then .v6End
    else if isZoneChar ch then .v6Zone
    else .dead
  | .v6ZoneStart => if isZoneChar ch then .v6Zone else .dead
  | .port | .portStart => if isNum ch then .port else .dead
  | .dead => .dead

/-! ### The result structure -/

/-- `enum c_http_parser_url_fields`. -/
inductive UrlField
  | schema
  | host
  | port
  | path
  | query
  | fragment
  | userinfo
  deriving DecidableEq, Repr

/-- A value converted to `uint16_t`. -/
def u16 (n : ℕ) : ℕ := n % 65536

/-- An element of `field_data`. -/
@[ext]
structure FieldData where
  off : ℕ
  len : ℕ
  deriving DecidableEq, Repr

/-- `struct c_http_parser_url`; the bits of `field_set` one by one. -/
structure ParserUrl where
  fieldSet : UrlField → Bool
  port : ℕ
  fieldData : UrlField → FieldData

namespace ParserUrl

/-- `c_http_parser_url_init`. -/
def init : ParserUrl where
  fieldSet _ := false
  port := 0
  fieldData _ := ⟨0, 0⟩

/-- `u->field_data[uf].off = (uint16_t)n`. -/
def setOff (u : ParserUrl) (uf : UrlField) (n : ℕ) : ParserUrl :=
  { u with fieldData := Function.update u.fieldData uf ⟨u16 n, (u.fieldData uf).len⟩ }

/-- `u->field_data[uf].len = n`. -/
def setLen (u : ParserUrl) (uf : UrlField) (n : ℕ) : ParserUrl :=
  { u with fieldData := Function.update u.fieldData uf ⟨(u.fieldData uf).off, u16 n⟩ }

/-- `u->field_data[uf].len++`. -/
def incLen (u : ParserUrl) (uf : UrlField) : ParserUrl := u.setLen uf ((u.fieldData uf).len + 1)

/-- `u->field_set |= (1 << uf)`. -/
def setBit (u : ParserUrl) (uf : UrlField) : ParserUrl :=
  { u with fieldSet := Function.update u.fieldSet uf true }

/-- `u->field_set == ((1 << UF_HOST)|(1 << UF_PORT))`. -/
def hostAndPortOnly (u : ParserUrl) : Bool :=
  [UrlField.schema, .host, .port, .path, .query, .fragment, .userinfo].all fun uf =>
    u.fieldSet uf == (uf == .host || uf == .port)

end ParserUrl

/-- `n` bytes of the buffer from offset `off`. -/
def slice (buf : List UInt8) (off n : ℕ) : List UInt8 := (buf.drop off).take n

/-! ### The loop over the URL -/

/-- The variables of the loop of `c_http_parser_parse_url`; `oldUf` is `none` for `UF_MAX`. -/
structure UrlLoop where
  s : UrlState
  oldUf : Option UrlField
  foundAt : Bool
  u : ParserUrl

/-- The `switch` over the new state: the field a byte belongs to, none for a delimiter. -/
def UrlState.field : UrlState → Except Abort (Option UrlField)
  | .schemaSlash | .schemaSlashSlash | .serverStart | .queryStringStart | .fragmentStart => .ok none
  | .schema => .ok (some .schema)
  | .serverWithAt | .server => .ok (some .host)
  | .path => .ok (some .path)
  | .queryString => .ok (some .query)
  | .fragment => .ok (some .fragment)
  | .dead | .spacesBeforeUrl => .error ⟨"c_http_parser_parse_url", "!\"Unexpected state\""⟩

namespace UrlLoop

/-- The new state, and `found_at` with it. -/
def advance (l : UrlLoop) (s : UrlState) : UrlLoop :=
  { l with s := s, foundAt := l.foundAt || s = .serverWithAt }

/-- The rest of the loop's body, for a byte at `pos` of the field `uf`. -/
def store (l : UrlLoop) (pos : ℕ) (uf : UrlField) : UrlLoop :=
  if l.oldUf = some uf then { l with u := l.u.incLen uf }
  else { l with u := (((l.u.setOff uf pos).setLen uf 1).setBit uf), oldUf := some uf }

/-- The loop's body, once the new state is known to be live. -/
def enter (l : UrlLoop) (pos : ℕ) (s : UrlState) : Except Abort UrlLoop := do
  match ← s.field with
  | none => return l.advance s
  | some uf => return (l.advance s).store pos uf

end UrlLoop

/-- The loop of `c_http_parser_parse_url` over the bytes from `pos` on, with 1 where it returns. -/
def urlLoop : List UInt8 → ℕ → UrlLoop → Except Abort (ℕ × UrlLoop)
  | [], _, l => .ok (0, l)
  | ch :: chs, pos, l =>
    if parseUrlChar l.s ch = .dead then .ok (1, l)
    else do urlLoop chs (pos + 1) (← l.enter pos (parseUrlChar l.s ch))

/-! ### The loop over the authority -/

/-- The `switch` of `c_http_parse_host`, for a byte at `pos` that leads from `s` to `newS`. -/
def ParserUrl.hostByte (u : ParserUrl) (pos : ℕ) (s newS : HostState) : ParserUrl :=
  match newS with
  | .host => (if s ≠ .host then u.setOff .host pos else u).incLen .host
  | .v6 => (if s ≠ .v6 then u.setOff .host pos else u).incLen .host
  | .v6ZoneStart | .v6Zone => u.incLen .host
  | .port =>
    (if s ≠ .port then ((u.setOff .port pos).setLen .port 0).setBit .port else u).incLen .port
  | .userinfo =>
    (if s ≠ .userinfo then ((u.setOff .userinfo pos).setLen .userinfo 0).setBit .userinfo
      else u).incLen .userinfo
  | _ => u

/-- The loop of `c_http_parse_host` over the bytes from `pos` on; it ends in the dead state where
the source returns. -/
def hostLoop : List UInt8 → ℕ → HostState → ParserUrl → HostState × ParserUrl
  | [], _, s, u => (s, u)
  | ch :: chs, pos, s, u =>
    if parseHostChar s ch = .dead then (.dead, u)
    else hostLoop chs (pos + 1) (parseHostChar s ch) (u.hostByte pos s (parseHostChar s ch))

/-- The states in which `c_http_parse_host` does not return 1 at the end. -/
def HostState.final : HostState → Bool
  | .host | .v6End | .port => true
  | _ => false

/-- The state in which `c_http_parse_host` starts. -/
def HostState.start (foundAt : Bool) : HostState := if foundAt then .userinfoStart else .hostStart

/-- `c_http_parse_host`. -/
def parseHost (buf : List UInt8) (u : ParserUrl) (foundAt : Bool) :
    Except Abort (ℕ × ParserUrl) := do
  assertThat (u.fieldSet .host) "c_http_parse_host" "u->field_set & (1 << UF_HOST)"
  let off := (u.fieldData .host).off
  let (s, u') := hostLoop (slice buf off (u.fieldData .host).len) off (.start foundAt)
    (u.setLen .host 0)
  return (if s.final then 0 else 1, u')

/-! ### The port -/

/-- The values of an `unsigned long`: 2 to the 64th. -/
def ulongSize : ℤ := 0x10000000000000000

/-- The loop over the digits of the port, in `unsigned long`; none where it returns. The byte is a
signed `char`. -/
def portLoop : List UInt8 → ℕ → Option ℕ
  | [], v => some v
  | ch :: chs, v =>
    let v' := (((v * 10 : ℕ) + (ch.toInt8.toInt - (chr '0').toInt8.toInt) : ℤ) % ulongSize).toNat
    if v' > 0xffff then none else portLoop chs v'

/-- The end of `c_http_parser_parse_url`. -/
def parsePort (buf : List UInt8) (u : ParserUrl) : Except Abort (ℕ × ParserUrl) :=
  if u.fieldSet .port then do
    let off := (u.fieldData .port).off
    let len := (u.fieldData .port).len
    assertThat (off + len ≤ buf.length) "c_http_parser_parse_url"
      "off + len <= buflen && \"Port number overflow\""
    match portLoop (slice buf off len) 0 with
    | none => return (1, u)
    | some v => return (0, { u with port := u16 v })
  else .ok (0, u)

/-! ### The whole parser -/

/-- `c_http_parser_parse_url` after the host pass. -/
def parseAfterHost (buf : List UInt8) (isConnect : Bool) (u : ParserUrl) :
    Except Abort (ℕ × ParserUrl) :=
  if isConnect && !u.hostAndPortOnly then .ok (1, u) else parsePort buf u

/-- `c_http_parser_parse_url` after its loop. -/
def parseAfterLoop (buf : List UInt8) (isConnect : Bool) (l : UrlLoop) :
    Except Abort (ℕ × ParserUrl) :=
  if l.u.fieldSet .schema && !l.u.fieldSet .host then .ok (1, l.u)
  else if l.u.fieldSet .host then do
    let (rc, u) ← parseHost buf l.u l.foundAt
    if rc ≠ 0 then return (1, u) else parseAfterHost buf isConnect u
  else parseAfterHost buf isConnect l.u

/-- The state in which the first automaton starts. -/
def UrlState.start (isConnect : Bool) : UrlState :=
  if isConnect then .serverStart else .spacesBeforeUrl

/-- The loop's variables before the loop. -/
def UrlLoop.init (isConnect : Bool) (u : ParserUrl) : UrlLoop where
  s := .start isConnect
  oldUf := none
  foundAt := false
  u := { u with port := 0, fieldSet := fun _ => false }

/-- `c_http_parser_parse_url`: 0 if the URL is accepted. -/
def parseUrl (buf : List UInt8) (isConnect : Bool) (u : ParserUrl) : Except Abort (ℕ × ParserUrl) :=
  if buf.length = 0 then .ok (1, u)
  else do
    let (rc, l) ← urlLoop buf 0 (.init isConnect u)
    if rc ≠ 0 then return (1, l.u) else parseAfterLoop buf isConnect l

/-! ### URLs -/

/-- `Url_t`. -/
structure Url where
  scheme : Cbuffer
  host : Cbuffer
  path : Cbuffer
  port : Cbuffer
  fragement : Cbuffer
  query : Cbuffer
  userInfo : Cbuffer

namespace Url

/-- The buffer for a field. -/
def get (this : Url) : UrlField → Cbuffer
  | .schema => this.scheme
  | .host => this.host
  | .port => this.port
  | .path => this.path
  | .query => this.query
  | .fragment => this.fragement
  | .userinfo => this.userInfo

/-- A buffer of `Url_new`: new, with the field put in it unless its length is zero. -/
def fieldBuffer (url : List UInt8) (u : ParserUrl) (junk : UrlField → ByteMemory) (uf : UrlField) :
    Except Abort Cbuffer :=
  if (u.fieldData uf).len ≠ 0 then
    (Cbuffer.new (junk uf)).append (slice url (u.fieldData uf).off (u.fieldData uf).len)
  else .ok (Cbuffer.new (junk uf))

/-- `Url_new`; `junk` is what the memory of the buffers holds when it is allocated. -/
def new (junk : UrlField → ByteMemory) (url : List UInt8) : Except Abort Url := do
  let (_, u) ← parseUrl (cString url) false ParserUrl.init
  let scheme ← fieldBuffer url u junk .schema
  let userInfo ← fieldBuffer url u junk .userinfo
  let host ← fieldBuffer url u junk .host
  let path ← fieldBuffer url u junk .path
  let port ← fieldBuffer url u junk .port
  let fragement ← fieldBuffer url u junk .fragment
  let query ← fieldBuffer url u junk .query
  return ⟨scheme, host, path, port, fragement, query, userInfo⟩

end Url

end CHttp
