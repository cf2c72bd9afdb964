import SaunaFS.Master.FSNode
import Mathlib.Data.List.DropRight

/-! The exports table of the master (src/master/exports.cc): which line of the
exports file a client session gets its parameters from. `exports_check` walks
the lines in file order, keeps the lines that match the client (address range,
version, meta flag, path, password) and replaces the line it holds whenever the
new one is preferred to it on any one of five grounds, each tried only when the
earlier ones do not hold: read-write over read-only, an unrestricted root over a
mapped one, quota changes by everyone, a password, a longer path.

The password digest is `md5` of the session's random code with the line's
digest in the middle; `md5` is a parameter of the model. The parsing of the
exports file is not modelled: the table is a list of records.
-/

set_option autoImplicit false

namespace SaunaFS

def SAUNAFS_ERROR_EACCES : UInt8 := 4
def SAUNAFS_ERROR_NOPASSWORD : UInt8 := 36
def SAUNAFS_ERROR_BADPASSWORD : UInt8 := 37

/-- `struct exports`: one line of the exports file. `path` is kept without its
leading and trailing `/`, so `pleng` is its length; `isMeta` is the bit `meta`
(a keyword of Lean), and the request's `meta` is `metaRequest`. -/
structure Exports where
  path : List UInt8
  fromip : UInt32
  toip : UInt32
  minversion : UInt32
  passworddigest : List UInt8
  alldirs : Bool
  needpassword : Bool
  isMeta : Bool
  sesflags : UInt8
  mingoal : UInt8
  maxgoal : UInt8
  mintrashtime : UInt32
  maxtrashtime : UInt32
  rootuid : UInt32
  rootgid : UInt32
  mapalluid : UInt32
  mapallgid : UInt32
  deriving DecidableEq, Repr

/-- What `exports_check` writes back for the session on success. -/
structure SessionParams where
  sesflags : UInt8
  rootuid : UInt32
  rootgid : UInt32
  mapalluid : UInt32
  mapallgid : UInt32
  mingoal : UInt8
  maxgoal : UInt8
  mintrashtime : UInt32
  maxtrashtime : UInt32
  deriving DecidableEq, Repr

namespace Exports

def params (e : Exports) : SessionParams :=
  ⟨e.sesflags, e.rootuid, e.rootgid, e.mapalluid, e.mapallgid, e.mingoal, e.maxgoal, e.mintrashtime, e.maxtrashtime⟩

def slash : UInt8 := ('/' : Char).toUInt8

/-- The path check of a line against the client's path `p`, already without its
leading and trailing `/`: the line's own directory, or below it with `alldirs`. -/
def pathMatches (e : Exports) (p : List UInt8) : Bool :=
  if e.path.length = 0 then
    -- root dir
    p.length = 0 || e.alldirs
  else
    (p.length == e.path.length && p == e.path) ||
      (e.alldirs && decide (p.length > e.path.length) && p[e.path.length]? == some slash &&
        p.take e.path.length == e.path)

/-- The address, version, meta and path checks of a line (`ok` before the password). -/
def clientMatches (e : Exports) (ip version : UInt32) (metaRequest : UInt8) (p : List UInt8) : Bool :=
  ip ≥ e.fromip && ip ≤ e.toip && version ≥ e.minversion && metaRequest == (if e.isMeta then 1 else 0) &&
    -- no path in META
    (metaRequest != 0 || e.pathMatches p)

/-- The password check of a line that needs one: `md5(rndcode[0..16) ++
passworddigest ++ rndcode[16..32))` against the client's `passcode`. -/
def passwordMatches (md5 : List UInt8 → List UInt8) (e : Exports) (rndstate : UInt8)
    (rndcode passcode : Option (List UInt8)) : Bool :=
  match rndcode, passcode with
  | some rnd, some pass =>
    rndstate != 0 && md5 (rnd.take 16 ++ e.passworddigest ++ (rnd.drop 16).take 16) == pass.take 16
  | _, _ => false

/-- The else-if chain of `exports_check`: `e` takes the place of the line `f` held
so far when it is preferred on any one ground. -/
def preferred (e f : Exports) : Bool :=
  -- prefer rw to ro
  if e.sesflags &&& SESFLAG_READONLY == 0 && f.sesflags &&& SESFLAG_READONLY != 0 then true
  -- prefer root not restricted to restricted
  else if e.rootuid == 0 && f.rootuid != 0 then true
  -- prefer lines with more privileges
  else if e.sesflags &&& SESFLAG_ALLCANCHANGEQUOTA != 0 && f.sesflags &&& SESFLAG_ALLCANCHANGEQUOTA == 0 then true
  -- prefer lines with passwords
  else if e.needpassword && !f.needpassword then true
  -- prefer more accurate path
  else if e.path.length > f.path.length then true
  else false

/-- The state of the loop of `exports_check`: the line held (`f`) and whether a
line was refused for its password (`nopass`). -/
structure Scan where
  f : Option Exports
  nopass : Bool

/-- A line matches the client and, if it needs one, the password. -/
def accepted (md5 : List UInt8 → List UInt8) (ip version : UInt32) (metaRequest : UInt8) (p : List UInt8)
    (rndstate : UInt8) (rndcode passcode : Option (List UInt8)) (e : Exports) : Bool :=
  e.clientMatches ip version metaRequest p && !(e.needpassword && !e.passwordMatches md5 rndstate rndcode passcode)

/-- One line of the loop of `exports_check`. -/
def scanLine (md5 : List UInt8 → List UInt8) (ip version : UInt32) (metaRequest : UInt8) (p : List UInt8)
    (rndstate : UInt8) (rndcode passcode : Option (List UInt8)) (scan : Scan) (e : Exports) : Scan :=
  if e.clientMatches ip version metaRequest p then
    if e.needpassword && !e.passwordMatches md5 rndstate rndcode passcode then ⟨scan.f, true⟩
    else
      match scan.f with
      | none => ⟨some e, scan.nopass⟩
      | some f => ⟨if e.preferred f then some e else some f, scan.nopass⟩
  else scan

section Scan

variable {md5 : List UInt8 → List UInt8} {ip version : UInt32} {metaRequest : UInt8} {p : List UInt8}
  {rndstate : UInt8} {rndcode passcode : Option (List UInt8)}

/-- An accepted line is held if nothing was, or if it is preferred to the line held. -/
theorem scanLine_f (scan : Scan) (e : Exports) :
    (scanLine md5 ip version metaRequest p rndstate rndcode passcode scan e).f =
      if accepted md5 ip version metaRequest p rndstate rndcode passcode e then
        match scan.f with
        | none => some e
        | some f => if e.preferred f then some e else some f
      else scan.f := by
  unfold scanLine accepted
  by_cases client : e.clientMatches ip version metaRequest p
  · by_cases refused : e.needpassword && !e.passwordMatches md5 rndstate rndcode passcode
    · simp [client, refused]
    · cases held : scan.f <;> simp [client, refused]
  · simp [client]

/-- The line held after the loop was held before it, or is an accepted line of
the loop. -/
theorem foldl_scanLine_held (lines : List Exports) (scan : Scan) {f : Exports}
    (held : (lines.foldl (scanLine md5 ip version metaRequest p rndstate rndcode passcode) scan).f = some f) :
    scan.f = some f ∨ f ∈ lines ∧ accepted md5 ip version metaRequest p rndstate rndcode passcode f = true := by
  induction lines generalizing scan with
  | nil => exact .inl held
  | cons e rest ih =>
    rcases ih _ held with step | later
    · -- the line `e` itself was taken, or the earlier line was kept
      rw [scanLine_f] at step
      by_cases taken : accepted md5 ip version metaRequest p rndstate rndcode passcode e
      · rw [if_pos taken] at step
        cases before : scan.f with
        | none =>
          rw [before] at step
          exact .inr ⟨by simp [Option.some.inj step], by rw [← Option.some.inj step]; exact taken⟩
        | some g =>
          simp only [before] at step
          by_cases preferredHere : e.preferred g
          · rw [if_pos preferredHere] at step
            exact .inr ⟨by simp [Option.some.inj step], by rw [← Option.some.inj step]; exact taken⟩
          · rw [if_neg preferredHere] at step
            exact .inl step
      · rw [if_neg taken] at step
        exact .inl step
    · exact .inr ⟨List.mem_cons_of_mem e later.1, later.2⟩

end Scan

end Exports

open Exports

/-- The client's path without its leading and trailing `/`; no path in META. -/
def clientPath (metaRequest : UInt8) (path : List UInt8) : List UInt8 :=
  if metaRequest = 0 then (path.dropWhile (· == slash)).rdropWhile (· == slash) else []

/-- `rndstate`: the bits of the 32 bytes of `rndcode` or-ed together, zero without it. -/
def rndState (rndcode : Option (List UInt8)) : UInt8 :=
  match rndcode with
  | some rnd => (rnd.take 32).foldl (· ||| ·) 0
  | none => 0

/-- `exports_check`: the status, and on success the parameters of the line chosen
for a client at `ip` with `version`, asking for `path` (or for the meta data). -/
def exportsCheck (md5 : List UInt8 → List UInt8) (exportsRecords : List Exports) (ip version : UInt32)
    (metaRequest : UInt8) (path : List UInt8) (rndcode passcode : Option (List UInt8)) : Except UInt8 SessionParams :=
  let p := clientPath metaRequest path
  let rndstate := rndState rndcode
  let scan := exportsRecords.foldl (scanLine md5 ip version metaRequest p rndstate rndcode passcode) ⟨none, false⟩
  match scan.f with
  | none =>
    if scan.nopass then
      if rndstate == 0 || rndcode.isNone || passcode.isNone then .error SAUNAFS_ERROR_NOPASSWORD
      else .error SAUNAFS_ERROR_BADPASSWORD
    else .error SAUNAFS_ERROR_EACCES
  | some f => .ok f.params

/-- On success the session gets the parameters of one accepted line of the table. -/
theorem exportsCheck_ok {md5 : List UInt8 → List UInt8} {exportsRecords : List Exports} {ip version : UInt32}
    {metaRequest : UInt8} {path : List UInt8} {rndcode passcode : Option (List UInt8)} {params : SessionParams}
    (ok : exportsCheck md5 exportsRecords ip version metaRequest path rndcode passcode = .ok params) :
    ∃ e ∈ exportsRecords, params = e.params ∧ e.clientMatches ip version metaRequest (clientPath metaRequest path) = true := by
  unfold exportsCheck at ok
  dsimp only at ok
  split at ok
  next => split at ok <;> first | split at ok <;> cases ok | cases ok
  next f held =>
    obtain ⟨member, taken⟩ := (foldl_scanLine_held _ _ held).resolve_left (by simp)
    refine ⟨f, member, (Except.ok.inj ok).symm, ?_⟩
    unfold accepted at taken
    simp only [Bool.and_eq_true] at taken
    exact taken.1

/-- Two lines that both match a client at the root: one read-write with its root
mapped, one read-only with an unrestricted root. -/
def readWriteMappedRoot : Exports :=
  ⟨[], 0, 0xFFFFFFFF, 0, [], true, false, false, 0, 1, 9, 0, 0, 999, 999, 999, 999⟩

def readOnlyRoot : Exports :=
  ⟨[], 0, 0xFFFFFFFF, 0, [], true, false, false, SESFLAG_READONLY, 1, 9, 0, 0, 0, 0, 999, 999⟩

/-- The session a client gets depends on the order of the lines: each of the two
lines is preferred to the other on some ground, so the line read last wins. -/
theorem exportsCheck_depends_on_order :
    ∀ md5 : List UInt8 → List UInt8,
      exportsCheck md5 [readWriteMappedRoot, readOnlyRoot] 0 0 0 [slash] none none = .ok readOnlyRoot.params ∧
      exportsCheck md5 [readOnlyRoot, readWriteMappedRoot] 0 0 0 [slash] none none = .ok readWriteMappedRoot.params ∧
      readOnlyRoot.params ≠ readWriteMappedRoot.params :=
  fun _ => ⟨rfl, rfl, by decide⟩

end SaunaFS
