import Witos.Strings.IsoStrings

/-!
# The URL of the `tftp` command

`parse_url` of `command/tftp.c`.  The comment above it allows a URL with the
scheme, a host with a file name, and a host; the code compares the whole URL
with the scheme.
-/

namespace Witos.Tftp

open Library Strings

def einval : Int := 22
def slash : UInt8 := 0x2f

/-- `tftp`. -/
def tftpScheme : List UInt8 := [0x74, 0x66, 0x74, 0x70]

/-- `://`. -/
def schemeMark : List UInt8 := [0x3a, 0x2f, 0x2f]

/-- What `parse_url` returns and leaves in `ip` and `fn`. -/
structure ParsedUrl where
  ret : Int
  ip : Nat → UInt8
  fn : Nat → UInt8

/-- `parse_url` behind the scheme. -/
def splitHost (start : List UInt8) (ip fn : Nat → UInt8) : ParsedUrl :=
  match strchr start slash.toNat with
  | none => ⟨0, (strcpy 0 start ip).2, Function.update fn 0 0⟩
  | some stop =>
      ⟨0, Function.update (strncpy 0 start stop ip).2 stop 0,
        (strcpy 0 (start.drop (stop + 1)) fn).2⟩

def parseUrl (url : List UInt8) (ip fn : Nat → UInt8) : ParsedUrl :=
  match strstr url schemeMark with
  | some stop =>
      if strcmp url (tftpScheme ++ schemeMark) ≠ 0 then ⟨-einval, ip, fn⟩
      else splitHost (url.drop (stop + 3)) ip fn
  | none => splitHost url ip fn

/-- A string without a slash, and so without `://`. -/
structure Host extends CStr where
  noSlash : slash ∉ chars

/-- `tftp://host/name`, `host/name`, `host`, and a URL whose scheme is another
one. -/
inductive Url
  | full (host : Host) (name : CStr)
  | plain (host : Host) (name : CStr)
  | bare (host : Host)
  | foreign (scheme : Host) (rest : CStr) (differs : scheme.chars ≠ tftpScheme)

def Url.text : Url → List UInt8
  | .full host name =>
      tftpScheme ++ schemeMark ++ (host.chars ++ slash :: name.chars)
  | .plain host name => host.chars ++ slash :: name.chars
  | .bare host => host.chars
  | .foreign scheme rest _ => scheme.chars ++ schemeMark ++ rest.chars

/-- A URL was accepted and split into two strings. -/
structure Splits (parsed : ParsedUrl) (host name : List UInt8) : Prop where
  accepted : parsed.ret = 0
  ip : Lies parsed.ip 0 (host ++ [0])
  fn : Lies parsed.fn 0 (name ++ [0])

/-- A URL comes to what its shape says. -/
def Url.ParsesTo (parsed : ParsedUrl) : Url → Prop
  | .full host name => Splits parsed host.chars name.chars
  | .plain host name => Splits parsed host.chars name.chars
  | .bare host => Splits parsed host.chars []
  | .foreign _ _ _ => parsed.ret = -einval

/-- A URL without a scheme has no `://` anywhere, and one with the scheme of
TFTP is none. -/
def Url.Proper : Url → Prop
  | .full _ _ => False
  | .plain host name => ¬schemeMark <:+: host.chars ++ slash :: name.chars
  | .bare _ => True
  | .foreign _ _ _ => True

theorem infix_iff_drop {needle text : List UInt8} :
    needle <:+: text ↔ ∃ index, needle <+: text.drop index := by
  constructor
  · rintro ⟨before, after, rfl⟩
    refine ⟨before.length, after, ?_⟩
    simp
  · rintro ⟨index, starts⟩
    exact starts.isInfix.trans (List.drop_suffix index text).isInfix

theorem strstr_mark_found (url : List UInt8) :
    Finds (fun index => schemeMark <+: url.drop index)
      (strstr url schemeMark) :=
  (strstr_first (by decide) (Or.inr (by decide))).1

theorem strstr_mark_none {url : List UInt8}
    (absent : ¬schemeMark <:+: url) : strstr url schemeMark = none := by
  have found := strstr_mark_found url
  cases searched : strstr url schemeMark with
  | none => rfl
  | some index =>
      rw [searched] at found
      exact absurd (infix_iff_drop.mpr ⟨index, found⟩) absent

theorem strstr_mark_some {url : List UInt8} (present : schemeMark <:+: url) :
    ∃ stop, strstr url schemeMark = some stop := by
  have found := strstr_mark_found url
  cases searched : strstr url schemeMark with
  | none =>
      rw [searched] at found
      obtain ⟨index, starts⟩ := infix_iff_drop.mp present
      exact absurd starts (found index)
  | some stop => exact ⟨stop, rfl⟩

theorem strchr_slash {host : List UInt8} (noSlash : slash ∉ host)
    (rest : List UInt8) :
    strchr (host ++ slash :: rest) slash.toNat = some host.length := by
  induction host with
  | nil => rfl
  | cons char host induction =>
      rw [List.mem_cons, not_or] at noSlash
      have isNot : ¬(char.toNat : Int) = slash.toNat := by
        rw [Int.natCast_inj, UInt8.toNat_inj]
        exact Ne.symm noSlash.1
      rw [List.cons_append, strchr, if_neg isNot, induction noSlash.2]
      rfl

theorem strchr_noSlash {host : List UInt8} (noSlash : slash ∉ host) :
    strchr host slash.toNat = none := by
  have found := (strchr_first host slash.toNat).1
  cases searched : strchr host slash.toNat with
  | none => rfl
  | some index =>
      rw [searched] at found
      obtain ⟨char, isAt, value⟩ := found
      rw [Int.natCast_inj, UInt8.toNat_inj] at value
      exact absurd (value ▸ List.mem_of_getElem? isAt) noSlash

theorem lies_strcpy (src : List UInt8) (memory : Nat → UInt8) :
    Lies (strcpy 0 src memory).2 0 (src ++ [0]) := by
  rw [strcpy, strcpyLoop_eq]
  exact lies_overlayAt 0 _ memory

/-- `strncpy` of the first characters, and a terminator behind them. -/
theorem lies_strncpy (first rest : List UInt8) (memory : Nat → UInt8) :
    Lies (Function.update
        (strncpy 0 (first ++ rest) first.length memory).2 first.length 0)
      0 (first ++ [0]) := by
  have noZeros : first.length - (first ++ rest).length = 0 := by
    simp
  have terminated := overlayAt_append 0 first [0] memory
  rw [Nat.zero_add] at terminated
  rw [strncpy, copyPadded_eq, List.take_left, noZeros, List.replicate_zero,
    List.append_nil, ← overlayAt_singleton, terminated]
  exact lies_overlayAt 0 _ memory

section Outcomes

variable (ip fn : Nat → UInt8)

theorem splitHost_name {host : List UInt8} (noSlash : slash ∉ host)
    (name : List UInt8) :
    Splits (splitHost (host ++ slash :: name) ip fn) host name := by
  have behind : (host ++ slash :: name).drop (host.length + 1) = name := by
    rw [← List.drop_drop, List.drop_left]
    rfl
  rw [splitHost, strchr_slash noSlash]
  dsimp only
  rw [behind]
  exact ⟨rfl, lies_strncpy host _ ip, lies_strcpy name fn⟩

theorem splitHost_noName {host : List UInt8} (noSlash : slash ∉ host) :
    Splits (splitHost host ip fn) host [] := by
  rw [splitHost, strchr_noSlash noSlash]
  refine ⟨rfl, lies_strcpy host ip, ?_⟩
  rw [← overlayAt_singleton]
  exact lies_overlayAt 0 _ fn

theorem parseUrl_noMark {url : List UInt8} (absent : ¬schemeMark <:+: url) :
    parseUrl url ip fn = splitHost url ip fn := by
  rw [parseUrl, strstr_mark_none absent]

/-- A URL with `://` passes only if nothing is behind it. -/
theorem parseUrl_mark {url : List UInt8} (noNul : 0 ∉ url)
    (present : schemeMark <:+: url)
    (differs : url ≠ tftpScheme ++ schemeMark) :
    parseUrl url ip fn = ⟨-einval, ip, fn⟩ := by
  obtain ⟨stop, searched⟩ := strstr_mark_some present
  have unequal := mt (strcmp_eq_zero_iff noNul (by decide)).mp differs
  rw [parseUrl, searched]
  exact if_pos unequal

theorem not_splits_of_rejected {parsed : ParsedUrl} {host name : List UInt8}
    (rejected : parsed.ret = -einval) : ¬Splits parsed host name := by
  intro splits
  have both := rejected.symm.trans splits.accepted
  exact absurd both (by decide)

end Outcomes

theorem Url.noNul (url : Url) : 0 ∉ url.text := by
  cases url with
  | full host name =>
      simp [Url.text, tftpScheme, schemeMark, slash, host.noNul, name.noNul]
  | plain host name => simp [Url.text, slash, host.noNul, name.noNul]
  | bare host => exact host.noNul
  | foreign scheme rest differs =>
      simp [Url.text, schemeMark, scheme.noNul, rest.noNul]

theorem noMark_of_noSlash {host : List UInt8} (noSlash : slash ∉ host) :
    ¬schemeMark <:+: host := by
  intro present
  exact noSlash (present.subset (by decide))

theorem takeWhile_slash {before : List UInt8} (noSlash : slash ∉ before)
    (after : List UInt8) :
    (before ++ slash :: after).takeWhile (· != slash) = before := by
  induction before with
  | nil => rfl
  | cons char before induction =>
      rw [List.mem_cons, not_or] at noSlash
      rw [List.cons_append, List.takeWhile_cons,
        if_pos (by simpa using Ne.symm noSlash.1), induction noSlash.2]

theorem foreign_differs {scheme : Host} (rest : CStr)
    (differs : scheme.chars ≠ tftpScheme) :
    scheme.chars ++ schemeMark ++ rest.chars ≠ tftpScheme ++ schemeMark := by
  intro same
  have front (before : List UInt8) (noSlash : slash ∉ before)
      (after : List UInt8) :
      (before ++ schemeMark ++ after).takeWhile (· != slash) =
        before ++ [0x3a] := by
    have noSlashHere : slash ∉ before ++ [0x3a] := by
      rw [List.mem_append, not_or]
      exact ⟨noSlash, by decide⟩
    have shape : before ++ schemeMark ++ after =
        before ++ [0x3a] ++ slash :: (slash :: after) := by
      simp [schemeMark, slash]
    rw [shape, takeWhile_slash noSlashHere]
  have fronts := congrArg (List.takeWhile (· != slash)) same
  rw [front _ scheme.noSlash, ← List.append_nil (tftpScheme ++ schemeMark),
    front _ (by decide)] at fronts
  exact differs (List.append_cancel_right fronts)

theorem not_splits_scheme {host : Host} {name : CStr}
    (same : (Url.plain host name).text = tftpScheme ++ schemeMark)
    (ip fn : Nat → UInt8) :
    ¬Splits (parseUrl (Url.plain host name).text ip fn) host.chars
      name.chars := by
  intro splits
  have stored := splits.ip
  have isEmpty : (parseUrl (tftpScheme ++ schemeMark) ip fn).ip 0 = 0 := rfl
  rw [same] at stored
  cases isHost : host.chars with
  | nil =>
      rw [Url.text, isHost] at same
      have first := (List.cons.inj same).1
      exact absurd first (by decide)
  | cons char rest =>
      rw [isHost, List.cons_append, lies_cons, isEmpty] at stored
      have noNul := host.noNul
      rw [isHost] at noNul
      exact noNul (stored.1 ▸ List.mem_cons_self)

/-- `parse_url` does with a URL what the comment above it says exactly if it
has no scheme and no `://` anywhere, or another scheme than that of TFTP. -/
theorem parseUrl_parsesTo_iff (url : Url) (ip fn : Nat → UInt8) :
    url.ParsesTo (parseUrl url.text ip fn) ↔ url.Proper := by
  have noNul := url.noNul
  cases url with
  | full host name =>
      have present : schemeMark <:+: (Url.full host name).text :=
        ⟨tftpScheme, _, rfl⟩
      have differs : (Url.full host name).text ≠ tftpScheme ++ schemeMark := by
        intro same
        have lengths := congrArg List.length same
        simp [Url.text] at lengths
      have rejected := parseUrl_mark ip fn noNul present differs
      exact iff_of_false (not_splits_of_rejected (congrArg _ rejected)) id
  | plain host name =>
      by_cases present : schemeMark <:+: (Url.plain host name).text
      · have notSplit : ¬Splits (parseUrl (Url.plain host name).text ip fn)
            host.chars name.chars := by
          by_cases same :
              (Url.plain host name).text = tftpScheme ++ schemeMark
          · exact not_splits_scheme same ip fn
          · have rejected := parseUrl_mark ip fn noNul present same
            exact not_splits_of_rejected (congrArg _ rejected)
        exact iff_of_false notSplit (not_not_intro present)
      · apply iff_of_true _ present
        rw [Url.ParsesTo, parseUrl_noMark ip fn present]
        exact splitHost_name ip fn host.noSlash name.chars
  | bare host =>
      apply iff_of_true _ trivial
      rw [Url.ParsesTo, Url.text,
        parseUrl_noMark ip fn (noMark_of_noSlash host.noSlash)]
      exact splitHost_noName ip fn host.noSlash
  | foreign scheme rest differs =>
      have present : schemeMark <:+: (Url.foreign scheme rest differs).text :=
        ⟨scheme.chars, rest.chars, rfl⟩
      have rejected := parseUrl_mark ip fn noNul present
        (foreign_differs rest differs)
      exact iff_of_true (congrArg ParsedUrl.ret rejected) trivial

/-- `tftp://h/f` is rejected. -/
theorem not_parseUrl_parsesTo :
    ¬∀ (url : Url) (ip fn : Nat → UInt8),
      url.ParsesTo (parseUrl url.text ip fn) := by
  intro always
  have splits := always
    (.full ⟨⟨[0x68], by decide⟩, by decide⟩ ⟨[0x66], by decide⟩)
    (fun _ => 0) (fun _ => 0)
  exact not_splits_of_rejected rfl splits

end Witos.Tftp
