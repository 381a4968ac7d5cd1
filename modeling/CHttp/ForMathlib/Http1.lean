import Mathlib.Data.List.Basic
import Mathlib.Data.List.TakeWhile

/-!
# A reference grammar for HTTP/1.1 messages

Byte strings are decoded by the productions of the message format: a start line, header fields
`name ':' SP value CRLF`, an empty line, and a body delimited by the header fields. Each decoder
returns what it read and the bytes it left. The encoders write the same productions, and
`requestHead_encode` says that a decoded head is the one encoded, whatever follows it.

`framing` is the decision between a counted and a chunked body. A chunked body is shorter than
its encoding (`chunks_length`), so no byte string is its own chunked encoding.
-/

namespace Http1

/-- `CR`. -/
def cr : UInt8 := 13

/-- `LF`. -/
def lf : UInt8 := 10

/-- `SP`. -/
def sp : UInt8 := 32

/-- `':'`. -/
def colon : UInt8 := 58

/-- `'.'`. -/
def dot : UInt8 := 46

/-- `CRLF`. -/
def crlf : List UInt8 := [cr, lf]

/-- `"HTTP/"`. -/
def httpSlash : List UInt8 := [72, 84, 84, 80, 47]

/-! ### Lines and words -/

/-- Cut at the first byte `c`, which belongs to neither half. -/
def cut (c : UInt8) : List UInt8 → Option (List UInt8 × List UInt8)
  | [] => none
  | b :: bs => if b = c then some ([], bs) else (cut c bs).map fun p => (b :: p.1, p.2)

/-- The first line and what follows it; a `CR` stands only before an `LF`. -/
def line (bs : List UInt8) : Option (List UInt8 × List UInt8) :=
  match cut cr bs with
  | some (l, b :: rest) => if b = lf then some (l, rest) else none
  | _ => none

/-- Bytes before the cut go to the first half. -/
theorem cut_append_left {c : UInt8} {l : List UInt8} (h : c ∉ l) (r : List UInt8) :
    cut c (l ++ r) = (cut c r).map fun p => (l ++ p.1, p.2) := by
  induction l with
  | nil => simp
  | cons b l ih =>
    have hb : b ≠ c := fun he => h (he ▸ List.mem_cons_self)
    have hl : c ∉ l := fun hm => h (List.mem_cons_of_mem _ hm)
    simp only [List.cons_append, cut, hb, if_false, ih hl, Option.map_map]
    rfl

theorem cut_append {c : UInt8} {l : List UInt8} (h : c ∉ l) (r : List UInt8) :
    cut c (l ++ c :: r) = some (l, r) := by
  rw [cut_append_left h]
  simp [cut]

/-- What `cut` returns is its input, cut. -/
theorem of_cut {c : UInt8} {bs l r : List UInt8} (h : cut c bs = some (l, r)) :
    bs = l ++ c :: r := by
  induction bs generalizing l with
  | nil => cases h
  | cons b bs ih =>
    by_cases hb : b = c
    · simp only [cut, hb, if_true, Option.some.injEq, Prod.mk.injEq] at h
      rw [← h.1, ← h.2, hb]
      rfl
    · simp only [cut, hb, if_false, Option.map_eq_some_iff, Prod.mk.injEq] at h
      obtain ⟨⟨l', r'⟩, hcut, hl, hr⟩ := h
      subst hl hr
      exact congrArg (b :: ·) (ih hcut)

theorem line_append {l : List UInt8} (h : cr ∉ l) (rest : List UInt8) :
    line (l ++ crlf ++ rest) = some (l, rest) := by
  rw [List.append_assoc]
  simp only [line, crlf, List.cons_append, List.nil_append, cut_append h, if_true]

/-- A line that starts with bytes other than `CR` starts with those bytes. -/
theorem line_append_left {l : List UInt8} (h : cr ∉ l) (r : List UInt8) :
    line (l ++ r) = (line r).map fun p => (l ++ p.1, p.2) := by
  rw [line, line, cut_append_left h]
  cases cut cr r with
  | none => rfl
  | some p =>
    obtain ⟨l', r'⟩ := p
    cases r' with
    | nil => rfl
    | cons b r' => by_cases hb : b = lf <;> simp [hb]

/-- A line takes two bytes more than it shows. -/
theorem length_of_line {bs l rest : List UInt8} (h : line bs = some (l, rest)) :
    bs.length = l.length + 2 + rest.length := by
  cases hc : cut cr bs with
  | none => simp [line, hc] at h
  | some p =>
    obtain ⟨l', r⟩ := p
    cases r with
    | nil => simp [line, hc] at h
    | cons b r =>
      by_cases hb : b = lf
      · simp only [line, hc, hb, if_true, Option.some.injEq, Prod.mk.injEq] at h
        rw [of_cut hc, h.1, h.2]
        simp only [List.length_append, List.length_cons]
        omega
      · simp [line, hc, hb] at h

/-! ### Numbers -/

/-- A decimal digit. -/
def digit? (b : UInt8) : Option ℕ :=
  if 48 ≤ b.toNat ∧ b.toNat ≤ 57 then some (b.toNat - 48) else none

/-- `1*DIGIT`. -/
def number? (bs : List UInt8) : Option ℕ :=
  if bs = [] then none else bs.foldlM (fun n b => (digit? b).map (10 * n + ·)) 0

/-- Decimal notation. -/
def decimal (n : ℕ) : List UInt8 := (Nat.toDigits 10 n).map fun c => c.toNat.toUInt8

theorem decimal_of_lt {n : ℕ} (h : n < 10) : decimal n = [(48 + n).toUInt8] := by
  simp [decimal, Nat.toDigits_of_lt_base h, Nat.toNat_digitChar_of_lt_ten h]

theorem decimal_of_le {n : ℕ} (h : 10 ≤ n) :
    decimal n = decimal (n / 10) ++ [(48 + n % 10).toUInt8] := by
  simp only [decimal, Nat.toDigits_of_base_le (by decide : 1 < 10) h, List.map_append,
    List.map_cons, List.map_nil, Nat.toNat_digitChar_of_lt_ten (Nat.mod_lt n (by decide))]

theorem digit?_toUInt8 {d : ℕ} (h : d < 10) : digit? (48 + d).toUInt8 = some d := by
  have hd : (48 + d).toUInt8.toNat = 48 + d := by
    rw [Nat.toUInt8, UInt8.toNat_ofNat']
    omega
  rw [digit?, hd, if_pos (by omega), Nat.add_sub_cancel_left]

theorem decimal_ne_nil (n : ℕ) : decimal n ≠ [] := by
  simp [decimal]

/-- Decimal notation is read back. -/
theorem number?_decimal (n : ℕ) : number? (decimal n) = some n := by
  rw [number?, if_neg (decimal_ne_nil n)]
  induction n using Nat.strongRecOn with
  | _ n ih =>
    rcases Nat.lt_or_ge n 10 with h | h
    · rw [decimal_of_lt h, List.foldlM_cons, digit?_toUInt8 h]
      exact congrArg some (Nat.zero_add n)
    · rw [decimal_of_le h, List.foldlM_append, ih (n / 10) (by omega)]
      simp only [Option.bind_eq_bind, Option.bind_some, List.foldlM_cons, List.foldlM_nil,
        digit?_toUInt8 (Nat.mod_lt n (by decide : 0 < 10))]
      exact congrArg some (Nat.div_add_mod n 10)

/-- Decimal notation is made of digits. -/
theorem isSome_digit?_of_mem_decimal {n : ℕ} {b : UInt8} (h : b ∈ decimal n) :
    (digit? b).isSome := by
  induction n using Nat.strongRecOn with
  | _ n ih =>
    rcases Nat.lt_or_ge n 10 with hn | hn
    · rw [decimal_of_lt hn, List.mem_singleton] at h
      rw [h, digit?_toUInt8 hn]
      rfl
    · rw [decimal_of_le hn, List.mem_append, List.mem_singleton] at h
      rcases h with h | h
      · exact ih (n / 10) (by omega) h
      · rw [h, digit?_toUInt8 (Nat.mod_lt n (by decide))]
        rfl

theorem notMem_decimal {c : UInt8} (hc : digit? c = none) (n : ℕ) : c ∉ decimal n := by
  intro h
  have := isSome_digit?_of_mem_decimal h
  rw [hc] at this
  cases this

/-! ### Heads -/

/-- A header field: its name and its value. -/
abbrev Field : Type := List UInt8 × List UInt8

/-- `tchar`. -/
def isTchar (b : UInt8) : Bool :=
  (48 ≤ b ∧ b ≤ 57) ∨ (65 ≤ b ∧ b ≤ 90) ∨ (97 ≤ b ∧ b ≤ 122) ∨
    b ∈ [33, 35, 36, 37, 38, 39, 42, 43, 45, 46, 94, 95, 96, 124, 126]

/-- `token`. -/
def Token (s : List UInt8) : Prop := s ≠ [] ∧ ∀ b ∈ s, isTchar b

instance (s : List UInt8) : Decidable (Token s) :=
  have : Decidable (∀ b ∈ s, isTchar b) := List.decidableBAll _ s
  inferInstanceAs (Decidable (s ≠ [] ∧ _))

theorem Token.notMem {s : List UInt8} (h : Token s) {c : UInt8} (hc : isTchar c = false) :
    c ∉ s := by
  intro hm
  rw [h.2 c hm] at hc
  cases hc

/-- A header line, its `CRLF` taken off. -/
def field? (l : List UInt8) : Option Field :=
  match cut colon l with
  | some (name, b :: value) => if Token name ∧ b = sp then some (name, value) else none
  | _ => none

/-- Header fields up to the empty line; `fuel` bounds the number of lines. -/
def fields : ℕ → List UInt8 → Option (List Field × List UInt8)
  | 0, _ => none
  | fuel + 1, bs => do
    let (l, rest) ← line bs
    if l = [] then return ([], rest) else
      let f ← field? l
      let (fs, rest) ← fields fuel rest
      return (f :: fs, rest)

/-- `HTTP-version`. -/
def version? (bs : List UInt8) : Option (ℕ × ℕ) := do
  let (major, minor) ← cut dot (← bs.dropPrefix? httpSlash)
  return (← number? major, ← number? minor)

/-- The head of a request. -/
structure RequestHead where
  method : List UInt8
  target : List UInt8
  version : ℕ × ℕ
  headers : List Field
  deriving DecidableEq, Repr

/-- `method SP target SP HTTP-version`. -/
def requestLine? (l : List UInt8) : Option (List UInt8 × List UInt8 × (ℕ × ℕ)) := do
  let (method, rest) ← cut sp l
  let (target, version) ← cut sp rest
  if Token method ∧ target ≠ [] then return (method, target, ← version? version) else none

/-- The head of a request, and the bytes after it. -/
def requestHead (bs : List UInt8) : Option (RequestHead × List UInt8) := do
  let (l, rest) ← line bs
  let (method, target, version) ← requestLine? l
  let (headers, rest) ← fields (rest.length + 1) rest
  return (⟨method, target, version, headers⟩, rest)

/-- The head of a response. -/
structure ResponseHead where
  version : ℕ × ℕ
  status : ℕ
  reason : List UInt8
  headers : List Field
  deriving DecidableEq, Repr

/-- `HTTP-version SP 3DIGIT SP reason`. -/
def statusLine? (l : List UInt8) : Option ((ℕ × ℕ) × ℕ × List UInt8) := do
  let (version, rest) ← cut sp l
  let (status, reason) ← cut sp rest
  if status.length = 3 then return (← version? version, ← number? status, reason) else none

/-- The head of a response, and the bytes after it. -/
def responseHead (bs : List UInt8) : Option (ResponseHead × List UInt8) := do
  let (l, rest) ← line bs
  let (version, status, reason) ← statusLine? l
  let (headers, rest) ← fields (rest.length + 1) rest
  return (⟨version, status, reason, headers⟩, rest)

/-! ### Encoding heads -/

/-- A field that can stand on a header line. -/
structure FieldOk (f : Field) : Prop where
  name : Token f.1
  value : cr ∉ f.2

def encodeField (f : Field) : List UInt8 := f.1 ++ [colon, sp] ++ f.2 ++ crlf

def encodeVersion (version : ℕ × ℕ) : List UInt8 :=
  httpSlash ++ decimal version.1 ++ [dot] ++ decimal version.2

/-- The lines of a head after the first one, with the empty line. -/
def encodeFields (fs : List Field) : List UInt8 := fs.flatMap encodeField ++ crlf

def encodeRequestHead (h : RequestHead) : List UInt8 :=
  h.method ++ [sp] ++ h.target ++ [sp] ++ encodeVersion h.version ++ crlf ++
    encodeFields h.headers

theorem field?_encode {f : Field} (h : FieldOk f) :
    field? (f.1 ++ [colon, sp] ++ f.2) = some f := by
  have hcut : cut colon (f.1 ++ [colon, sp] ++ f.2) = some (f.1, sp :: f.2) := by
    rw [List.append_assoc]
    exact cut_append (h.name.notMem (by decide)) _
  simp only [field?, hcut, h.name, and_self, if_true]

/-- Encoded fields are read back, given fuel for the lines. -/
theorem fields_encode {fs : List Field} (h : ∀ f ∈ fs, FieldOk f) (rest : List UInt8) {fuel : ℕ}
    (hfuel : fs.length < fuel) : fields fuel (encodeFields fs ++ rest) = some (fs, rest) := by
  induction fs generalizing fuel with
  | nil =>
    obtain ⟨fuel, rfl⟩ := Nat.exists_eq_succ_of_ne_zero (Nat.ne_of_gt hfuel)
    have hline : line (encodeFields [] ++ rest) = some ([], rest) :=
      line_append (l := []) (by simp) rest
    simp only [fields, hline, Option.bind_eq_bind, Option.bind_some, if_true]
    rfl
  | cons f fs ih =>
    obtain ⟨fuel, rfl⟩ := Nat.exists_eq_succ_of_ne_zero (Nat.ne_of_gt (Nat.zero_lt_of_lt hfuel))
    have hf := h f List.mem_cons_self
    have hcr : cr ∉ f.1 ++ [colon, sp] ++ f.2 := by
      simp only [List.mem_append, not_or]
      exact ⟨⟨hf.name.notMem (by decide), by decide⟩, hf.value⟩
    have hline : line (encodeFields (f :: fs) ++ rest) =
        some (f.1 ++ [colon, sp] ++ f.2, encodeFields fs ++ rest) := by
      rw [show encodeFields (f :: fs) ++ rest =
        (f.1 ++ [colon, sp] ++ f.2) ++ crlf ++ (encodeFields fs ++ rest) by
          simp [encodeFields, encodeField]]
      exact line_append hcr _
    have hne : f.1 ++ [colon, sp] ++ f.2 ≠ [] := by simp
    have htail := ih (fun g hg => h g (List.mem_cons_of_mem _ hg)) (Nat.lt_of_succ_lt_succ hfuel)
    simp only [fields, hline, Option.bind_eq_bind, Option.bind_some, hne, if_false,
      field?_encode hf, htail]
    rfl

theorem version?_encode (version : ℕ × ℕ) : version? (encodeVersion version) = some version := by
  have hpre : (encodeVersion version).dropPrefix? httpSlash =
      some (decimal version.1 ++ dot :: decimal version.2) := by
    rw [List.dropPrefix?_eq_some_iff]
    exact ⟨httpSlash, by simp [encodeVersion], by simp⟩
  have hcut := cut_append (notMem_decimal (c := dot) (by decide) version.1) (decimal version.2)
  simp only [version?, hpre, hcut, Option.bind_eq_bind, Option.bind_some, number?_decimal]
  rfl

/-- A version has no space and no `CR` in it. -/
theorem notMem_encodeVersion {c : UInt8} (hd : digit? c = none) (hp : c ∉ httpSlash ++ [dot])
    (version : ℕ × ℕ) : c ∉ encodeVersion version := by
  simp only [List.mem_append, not_or] at hp
  simp only [encodeVersion, List.mem_append, not_or]
  exact ⟨⟨⟨hp.1, notMem_decimal hd _⟩, hp.2⟩, notMem_decimal hd _⟩

/-- A request head whose parts can stand where they are written. -/
structure RequestHeadOk (h : RequestHead) : Prop where
  method : Token h.method
  target_ne_nil : h.target ≠ []
  target : sp ∉ h.target ∧ cr ∉ h.target
  headers : ∀ f ∈ h.headers, FieldOk f

/-- There are no more lines than bytes. -/
theorem length_lt_encodeFields (fs : List Field) : fs.length < (encodeFields fs).length := by
  induction fs with
  | nil => decide
  | cons f fs ih =>
    have hcons : (encodeFields (f :: fs)).length =
        (encodeField f).length + (encodeFields fs).length := by
      simp [encodeFields]
    have hpos : 0 < (encodeField f).length := by
      simp only [encodeField, List.length_append, List.length_cons]
      omega
    rw [List.length_cons, hcons]
    omega

/-- **Round trip.** An encoded request head is read back, whatever follows it. -/
theorem requestHead_encode {h : RequestHead} (ok : RequestHeadOk h) (rest : List UInt8) :
    requestHead (encodeRequestHead h ++ rest) = some (h, rest) := by
  have hcr : cr ∉ h.method ++ [sp] ++ h.target ++ [sp] ++ encodeVersion h.version := by
    simp only [List.mem_append, not_or]
    exact ⟨⟨⟨⟨ok.method.notMem (by decide), by decide⟩, ok.target.2⟩, by decide⟩,
      notMem_encodeVersion (by decide) (by decide) _⟩
  have hline : line (encodeRequestHead h ++ rest) = some
      (h.method ++ [sp] ++ h.target ++ [sp] ++ encodeVersion h.version,
        encodeFields h.headers ++ rest) := by
    rw [encodeRequestHead, List.append_assoc]
    exact line_append hcr _
  have hcut₁ : cut sp (h.method ++ [sp] ++ h.target ++ [sp] ++ encodeVersion h.version) =
      some (h.method, h.target ++ sp :: encodeVersion h.version) := by
    rw [show h.method ++ [sp] ++ h.target ++ [sp] ++ encodeVersion h.version =
      h.method ++ sp :: (h.target ++ sp :: encodeVersion h.version) by simp]
    exact cut_append (ok.method.notMem (by decide)) _
  have hcut₂ := cut_append ok.target.1 (encodeVersion h.version)
  have hfuel : h.headers.length < (encodeFields h.headers ++ rest).length + 1 := by
    have := length_lt_encodeFields h.headers
    rw [List.length_append]
    omega
  have hfields := fields_encode ok.headers rest hfuel
  have hreq : requestLine? (h.method ++ [sp] ++ h.target ++ [sp] ++ encodeVersion h.version) =
      some (h.method, h.target, h.version) := by
    simp only [requestLine?, hcut₁, hcut₂, Option.bind_eq_bind, Option.bind_some, ok.method,
      ok.target_ne_nil, ne_eq, not_false_eq_true, and_self, if_true, version?_encode]
    rfl
  simp only [requestHead, hline, hreq, hfields, Option.bind_eq_bind, Option.bind_some]
  rfl

/-- Where the space after the version is doubled, there is no status. -/
theorem statusLine?_double_space {version l : List UInt8} (hv : sp ∉ version) :
    statusLine? (version ++ sp :: sp :: l) = none := by
  have hcut₂ : cut sp (sp :: l) = some ([], l) := by simp [cut]
  simp only [statusLine?, cut_append hv, hcut₂, Option.bind_eq_bind, Option.bind_some]
  rfl

/-- Nothing that starts with a version and two spaces is a response. -/
theorem responseHead_double_space {version : List UInt8} (hsp : sp ∉ version) (hcr : cr ∉ version)
    (tail : List UInt8) : responseHead (version ++ sp :: sp :: tail) = none := by
  have hcr' : cr ∉ version ++ [sp, sp] := by
    rw [List.mem_append, not_or]
    exact ⟨hcr, by decide⟩
  rw [show version ++ sp :: sp :: tail = (version ++ [sp, sp]) ++ tail by simp, responseHead,
    line_append_left hcr']
  cases line tail with
  | none => rfl
  | some p =>
    have hstatus : statusLine? (version ++ [sp, sp] ++ p.1) = none := by
      rw [List.append_assoc]
      exact statusLine?_double_space hsp
    simp only [Option.map_some, Option.bind_eq_bind, Option.bind_some, hstatus, Option.bind_none]

/-! ### Bodies -/

/-- How the end of a body is found. -/
inductive Framing
  | length (n : ℕ)
  | chunked
  deriving DecidableEq, Repr

/-- Lower case. -/
def lower (b : UInt8) : UInt8 := if 65 ≤ b ∧ b ≤ 90 then b + 32 else b

/-- The values of the fields called `name`, which is in lower case. -/
def valuesOf (name : List UInt8) (hs : List Field) : List (List UInt8) :=
  (hs.filter fun f => f.1.map lower = name).map Prod.snd

/-- The last element of a comma-separated list, without the blanks around it. -/
def lastElement (value : List UInt8) : List UInt8 :=
  let blank := fun b : UInt8 => b = sp ∨ b = 9
  ((value.reverse.takeWhile (· ≠ 44)).dropWhile blank).reverse.dropWhile blank

/-- `"content-length"`. -/
def contentLength : List UInt8 := [99, 111, 110, 116, 101, 110, 116, 45, 108, 101, 110, 103, 116, 104]

/-- `"transfer-encoding"`. -/
def transferEncoding : List UInt8 :=
  [116, 114, 97, 110, 115, 102, 101, 114, 45, 101, 110, 99, 111, 100, 105, 110, 103]

/-- `"chunked"`. -/
def chunkedCoding : List UInt8 := [99, 104, 117, 110, 107, 101, 100]

/-- The framing that a request's header fields announce: a body is chunked when that is the last
transfer coding, else counted, and a request that announces none has an empty body. -/
def framing (hs : List Field) : Option Framing :=
  match valuesOf transferEncoding hs, valuesOf contentLength hs with
  | [], [] => some (.length 0)
  | [], [value] => (number? value).map .length
  | te :: tes, [] =>
    if (lastElement ((te :: tes).getLast (by simp))).map lower = chunkedCoding then some .chunked
    else none
  | _, _ => none

/-- A hexadecimal digit. -/
def hexDigit? (b : UInt8) : Option ℕ :=
  if 48 ≤ b.toNat ∧ b.toNat ≤ 57 then some (b.toNat - 48)
  else if 65 ≤ b.toNat ∧ b.toNat ≤ 70 then some (b.toNat - 55)
  else if 97 ≤ b.toNat ∧ b.toNat ≤ 102 then some (b.toNat - 87)
  else none

/-- The size on a chunk's first line; an extension after `';'` is ignored. -/
def chunkSize? (l : List UInt8) : Option ℕ :=
  let digits := l.takeWhile (· ≠ 59)
  if digits = [] then none else digits.foldlM (fun n b => (hexDigit? b).map (16 * n + ·)) 0

/-- A chunked body, up to the empty line after the last chunk and the trailer fields. -/
def chunks : ℕ → List UInt8 → Option (List UInt8 × List UInt8)
  | 0, _ => none
  | fuel + 1, bs => do
    let (l, rest) ← line bs
    let size ← chunkSize? l
    if size = 0 then
      let (_, rest) ← fields (rest.length + 1) rest
      return ([], rest)
    else if rest.length < size then none
    else
      let (l', rest') ← line (rest.drop size)
      if l' = [] then
        let (body, rest'') ← chunks fuel rest'
        return (rest.take size ++ body, rest'')
      else none

/-- The body, and the bytes after it. -/
def body (bs : List UInt8) : Framing → Option (List UInt8 × List UInt8)
  | .length n => if bs.length < n then none else some (bs.take n, bs.drop n)
  | .chunked => chunks (bs.length + 1) bs

/-- A request: its head, its body, and the bytes after it. -/
def request (bs : List UInt8) : Option (RequestHead × List UInt8 × List UInt8) := do
  let (head, rest) ← requestHead bs
  let (content, rest) ← body rest (← framing head.headers)
  return (head, content, rest)

/-- After an encoded head, the body is delimited by its header fields. -/
theorem request_encode {h : RequestHead} (ok : RequestHeadOk h) (rest : List UInt8) :
    request (encodeRequestHead h ++ rest) =
      (framing h.headers).bind fun f => (body rest f).map fun p => (h, p.1, p.2) := by
  simp only [request, requestHead_encode ok, Option.bind_eq_bind, Option.bind_some]
  cases framing h.headers with
  | none => rfl
  | some f => cases hb : body rest f <;> simp [hb]

/-- A counted body has no transfer coding. -/
theorem valuesOf_of_length {hs : List Field} {n : ℕ} (h : framing hs = some (.length n)) :
    valuesOf transferEncoding hs = [] := by
  unfold framing at h
  split at h
  · assumption
  · assumption
  · split at h <;> cases h
  · cases h

/-- A chunked body has one. -/
theorem valuesOf_of_chunked {hs : List Field} (h : framing hs = some .chunked) :
    valuesOf transferEncoding hs ≠ [] := by
  unfold framing at h
  split at h
  · cases h
  · rw [Option.map_eq_some_iff] at h
    obtain ⟨n, -, hn⟩ := h
    cases hn
  · rename_i hte _
    rw [hte]
    exact List.cons_ne_nil _ _
  · cases h

/-- More fields do not make a chunked body a counted one. -/
theorem framing_append_ne_length {hs : List Field} (h : framing hs = some .chunked)
    (more : List Field) (n : ℕ) : framing (hs ++ more) ≠ some (.length n) := by
  intro hn
  have hnil := valuesOf_of_length hn
  rw [valuesOf, List.filter_append, List.map_append, List.append_eq_nil_iff] at hnil
  exact valuesOf_of_chunked h hnil.1

/-- Reading fields leaves fewer bytes. -/
theorem length_of_fields {fuel : ℕ} {bs rest : List UInt8} {fs : List Field}
    (h : fields fuel bs = some (fs, rest)) : rest.length < bs.length := by
  induction fuel generalizing bs fs with
  | zero => cases h
  | succ fuel ih =>
    cases hl : line bs with
    | none => simp [fields, hl] at h
    | some p =>
      obtain ⟨l, r⟩ := p
      have hlen := length_of_line hl
      by_cases hnil : l = []
      · simp only [fields, hl, hnil, Option.bind_eq_bind, Option.bind_some, if_true] at h
        cases h
        omega
      · simp only [fields, hl, hnil, Option.bind_eq_bind, Option.bind_some, if_false,
          Option.bind_eq_some_iff] at h
        obtain ⟨f, -, ⟨fs', r'⟩, hfs, heq⟩ := h
        cases heq
        have := ih hfs
        omega

/-- **A chunked body is shorter than its encoding.** -/
theorem chunks_length {fuel : ℕ} {bs content rest : List UInt8}
    (h : chunks fuel bs = some (content, rest)) : content.length + rest.length < bs.length := by
  induction fuel generalizing bs content with
  | zero => cases h
  | succ fuel ih =>
    simp only [chunks, Option.bind_eq_bind, Option.bind_eq_some_iff] at h
    obtain ⟨⟨l, r⟩, hl, size, -, h⟩ := h
    have hlen := length_of_line hl
    by_cases hzero : size = 0
    · simp only [hzero, if_true, Option.bind_eq_some_iff] at h
      obtain ⟨⟨fs, r'⟩, hfs, heq⟩ := h
      cases heq
      have := length_of_fields hfs
      simp only [List.length_nil]
      omega
    · by_cases hshort : r.length < size
      · simp [hzero, hshort] at h
      · simp only [hzero, hshort, if_false, Option.bind_eq_some_iff] at h
        obtain ⟨⟨l', r'⟩, hl', h⟩ := h
        by_cases hnil : l' = []
        · simp only [hnil, if_true, Option.bind_eq_some_iff] at h
          obtain ⟨tail, hc, heq⟩ := h
          cases heq
          have hrest := ih hc
          have hlen' := length_of_line hl'
          rw [List.length_drop] at hlen'
          rw [List.length_append, List.length_take, Nat.min_eq_left (Nat.le_of_not_lt hshort)]
          omega
        · simp [hnil] at h

/-- Bytes that are the whole of a body as they stand were counted. -/
theorem length_of_body_self {bs : List UInt8} {f : Framing} (h : body bs f = some (bs, [])) :
    f = .length bs.length := by
  cases f with
  | chunked =>
    have := chunks_length h
    rw [List.length_nil] at this
    omega
  | length n =>
    simp only [body] at h
    split at h
    · cases h
    · rename_i hlt
      simp only [Option.some.injEq, Prod.mk.injEq, List.drop_eq_nil_iff] at h
      exact congrArg _ (Nat.le_antisymm (Nat.le_of_not_lt hlt) h.2)

theorem body_length_self (bs : List UInt8) : body bs (.length bs.length) = some (bs, []) := by
  simp [body]

end Http1
