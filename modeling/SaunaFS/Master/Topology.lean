import SaunaFS.Master.IntervalTree
import SaunaFS.Lib.Numeral
import Mathlib.Data.List.TakeWhile

/-! The network topology of the master (`src/master/topology.cc`): the topology file maps
networks to rack ids, one `network rackid` line each, and `topology_distance` tells
chunkservers in one rack from those in others. `topology_load` reads the file line by line
with `topology_parseline` and `topology_parsenet`, adds each range to a new interval tree with
`itree_add_interval`, and rebalances it.

The loaded tree is a `RackTree`, and the rack it gives an address is that of the last line
whose range holds it (`topologyLoad_lastRack`). `topology_parsenet` reads back the addresses
`ipToString` prints, alone or as the ends of a range, and `ip/bits` is the block of the
addresses that agree with `ip` on their first `bits` bits. -/

set_option autoImplicit false

namespace SaunaFS

open ITree

/-- `ipToString(ip)` (`src/common/human_readable_format.cc`): the bytes of the address,
high first, in decimal, with a dot after each but the last. -/
def ipToString (ip : Nat) : List Char :=
  [24, 16, 8, 0].flatMap fun i => Numeral.numeral 10 ((ip >>> i) &&& 0xff) ++ if i > 0 then ['.'] else []

/-- The digit loop of `topology_parsenet`: the octet read so far and the text after its
digits, `none` as soon as it passes 255. -/
def octetDigits (octet : Nat) : List Char → Option (Nat × List Char)
  | c :: rest =>
    if c.isDigit then
      if octet * 10 + (c.toNat - '0'.toNat) > 255 then none
      else octetDigits (octet * 10 + (c.toNat - '0'.toNat)) rest
    else some (octet, c :: rest)
  | [] => some (octet, [])

def parseOctet : List Char → Option (Nat × List Char)
  | c :: rest => if c.isDigit then octetDigits 0 (c :: rest) else none
  | [] => none

/-- The loop of `topology_parsenet` over the octets of an address: `left` octets still to
read, `ip*256+octet` after each, and a dot after each but the last. -/
def octetLoop : Nat → Nat → List Char → Option (Nat × List Char)
  | 0, ip, s => some (ip, s)
  | left + 1, ip, s =>
    match parseOctet s with
    | none => none
    | some (octet, s) =>
      if left = 0 then octetLoop left (ip * 256 + octet) s
      else match s with
        | '.' :: s => octetLoop left (ip * 256 + octet) s
        | _ => none

/-- The mask of a prefix length `bits ≤ 32`: `0xFFFFFFFF` shifted left by `32 - bits` as a
`uint32_t`. For `/0` the source shifts by 32, which C leaves undefined; the shift here takes
its count modulo 32, as x86 and AArch64 do. -/
def prefixMask (bits : Nat) : Nat :=
  if bits < 32 then ((0xFFFFFFFF : UInt32) <<< (32 - bits).toUInt32).toNat else 0xFFFFFFFF

/-- The mask after the `/` of `topology_parsenet`: a prefix length alone, or four octets. -/
def parseMask (s : List Char) : Option Nat :=
  match parseOctet s with
  | none => none
  | some (octet, rest) =>
    if rest = [] ∧ octet ≤ 32 then some (prefixMask octet)
    else match rest with
      | '.' :: rest =>
        match octetLoop 3 octet rest with
        | some (mask, []) => some mask
        | _ => none
      | _ => none

/-- `topology_parsenet(net)`: the first and the last address of `*`, of an address, of
`ip/bits` or `ip/mask`, or of `ip1-ip2`. -/
def topologyParsenet (net : List Char) : Option (Nat × Nat) :=
  if net = ['*'] then some (0, 0xFFFFFFFF)
  else match octetLoop 4 0 net with
    | none => none
    | some (ip, []) => some (ip, ip)
    | some (ip, '/' :: rest) =>
      (parseMask rest).map fun mask => (ip &&& mask, (ip &&& mask) ||| (mask ^^^ 0xFFFFFFFF))
    | some (ip, '-' :: rest) =>
      match octetLoop 4 0 rest with
      | some (toip, []) => some (ip, toip)
      | _ => none
    | some _ => none

/-! ## `topology_parseline` and `topology_load` -/

-- the blanks `topology_parseline` skips
def isBlank (c : Char) : Bool := c = ' ' || c = '\t'

-- `*p==0 || *p=='\r' || *p=='\n'`: nothing more on the line
def atLineEnd : List Char → Bool
  | [] => true
  | c :: _ => c = '\r' || c = '\n'

/-- `strtoul(p, &p, 10)` over a run of digits, kept in a `uint32_t`: the number, held at
`ULONG_MAX` when it overflows, modulo `2^32`. -/
def strtoulRid (digits : List Char) : Nat := min (Numeral.value 10 digits) (2 ^ 64 - 1) % 2 ^ 32

/-- `topology_parseline(line, lineno)`: the range and the rack id of a line; `error none`
for a comment or an empty line, `error (some warning)` for a line it warns of. The line is
the text before its terminating NUL. -/
def topologyParseline (line : List Char) (lineno : Nat) : Except (Option String) (Nat × Nat × Nat) :=
  if line.head? = some '#' then .error none
  else
    let p := line.dropWhile isBlank
    if atLineEnd p then .error none
    else
      let net := p.takeWhile fun c => !isBlank c
      let p := p.dropWhile fun c => !isBlank c
      if atLineEnd p then .error (some ("sfstopology: incomplete definition in line: " ++ toString lineno))
      else
        match topologyParsenet net with
        | none => .error (some ("sfstopology: incorrect ip/network definition in line: " ++ toString lineno))
        | some (fip, tip) =>
          -- the blank after the network was overwritten by its terminating NUL
          let p := p.tail.dropWhile isBlank
          if !(p.head?.any Char.isDigit) then .error (some ("sfstopology: incorrect rack id in line: " ++ toString lineno))
          else
            let rid := strtoulRid (p.takeWhile Char.isDigit)
            let p := (p.dropWhile Char.isDigit).dropWhile isBlank
            if !(atLineEnd p || p.head? = some '#') then
              .error (some ("sfstopology: garbage found at the end of line: " ++ toString lineno))
            else .ok (fip, tip, rid)

-- every warning `topology_parseline` logs ends with the number of its line
theorem parseline_warning_lineno {line : List Char} {lineno : Nat} {warning : String}
    (warned : topologyParseline line lineno = .error (some warning)) :
    ∃ text, warning = text ++ toString lineno := by
  simp only [topologyParseline] at warned
  -- one case per test of the source; the comment and empty-line cases log nothing
  repeat' split at warned
  all_goals simp only [Except.error.injEq, Option.some.injEq, reduceCtorEq] at warned
  all_goals exact ⟨_, warned.symm⟩

/-- How `fopen`, `fgets` and `ferror` find the topology file. -/
inductive TopologyFile where
  | notFound                                -- `fopen` fails with `ENOENT`
  | cannotOpen (error : String)             -- another error, `strerr(errno)`
  | readError (lines : List (List Char))    -- `ferror` is set after these lines
  | read (lines : List (List Char))         -- the lines to the end of the file

/-- The loop of `topology_load`: every line that parses goes into the tree, and the
warnings are logged in order. -/
def loadLines (newtree : ITree) (log : List String) (lineno : Nat) : List (List Char) → ITree × List String
  | [] => (newtree, log)
  | line :: lines =>
    match topologyParseline line lineno with
    | .ok (fip, tip, rid) => loadLines (itreeAddInterval newtree fip tip rid) log (lineno + 1) lines
    | .error warning => loadLines newtree (log ++ warning.toList) (lineno + 1) lines

/-- `topology_load`: the rack tree after reading the file, and the lines it logs. -/
def topologyLoad (racktree : ITree) (fileName : String) : TopologyFile → ITree × List String
  | .notFound =>
    (racktree, [if racktree ≠ nil then
      ("topology file " ++ fileName ++ " not found - network topology not changed; if you don\x27t want to define network topology create an empty file " ++ fileName ++ " to disable this warning.")
    else
      ("topology file " ++ fileName ++ " not found - network topology feature will be disabled; if you don\x27t want to define network topology create an empty file " ++ fileName ++ " to disable this warning.")])
  | .cannotOpen error =>
    (racktree, [if racktree ≠ nil then
      ("can\x27t open topology file " ++ fileName ++ ": " ++ error ++ " - network topology not changed")
    else
      ("can\x27t open topology file " ++ fileName ++ ": " ++ error ++ " - network topology feature will be disabled")])
  | .readError lines =>
    -- the new tree is freed
    (racktree, (loadLines nil [] 1 lines).2 ++ [if racktree ≠ nil then
      ("error reading topology file " ++ fileName ++ " - network topology not changed")
    else
      ("error reading topology file " ++ fileName ++ " - network topology feature will be disabled")])
  | .read lines =>
    let (newtree, log) := loadLines nil [] 1 lines
    (if newtree ≠ nil then itreeRebalance newtree else newtree,
      log ++ [("initialized topology from file " ++ fileName)])

/-- `topology_distance(ip1, ip2)`: 0 for one machine when local chunkservers are preferred,
1 for one rack, 2 otherwise. -/
def topologyDistance (racktree : ITree) (preferLocalChunkserver : Int) (ip1 ip2 : Nat) : Nat :=
  if preferLocalChunkserver ≠ 0 ∧ ip1 = ip2 then 0
  else if itreeFind racktree ip1 = itreeFind racktree ip2 then 1 else 2

/-! ## What the loaded tree says -/

/-- The entries of the lines `topology_parseline` accepts, in order, the first line numbered `lineno`. -/
def acceptedEntries (lineno : Nat) : List (List Char) → List (Nat × Nat × Nat)
  | [] => []
  | line :: lines =>
    match topologyParseline line lineno with
    | .ok entry => entry :: acceptedEntries (lineno + 1) lines
    | .error _ => acceptedEntries (lineno + 1) lines

/-- The rack the file gives an address: the id of the last entry whose range holds it,
`0` when none does. -/
def lastRack (entries : List (Nat × Nat × Nat)) (v : Nat) : Nat :=
  ((entries.reverse.find? fun e => min e.1 e.2.1 ≤ v ∧ v ≤ max e.1 e.2.1).map fun e => e.2.2).getD 0

theorem loadLines_tree (newtree : ITree) (log : List String) (lineno : Nat) (lines : List (List Char)) :
    (loadLines newtree log lineno lines).1 =
      (acceptedEntries lineno lines).foldl (fun o e => itreeAddInterval o e.1 e.2.1 e.2.2) newtree := by
  induction lines generalizing newtree log lineno with
  | nil => rfl
  | cons line lines ih =>
    rw [loadLines, acceptedEntries]
    split
    · next entry parsed => rw [parsed, List.foldl_cons, ih]
    · next warning parsed => rw [parsed, ih]

namespace RackTree

theorem tree_foldl (entries : List (Nat × Nat × Nat)) (r : RackTree) :
    (entries.foldl (fun r e => r.addInterval e.1 e.2.1 e.2.2) r).tree =
      entries.foldl (fun o e => itreeAddInterval o e.1 e.2.1 e.2.2) r.tree := by
  induction entries generalizing r with
  | nil => rfl
  | cons e entries ih => exact ih _

-- entries added one after another: the last one holding an address decides its rack
theorem rack_foldl (entries : List (Nat × Nat × Nat)) (r : RackTree) (v : Nat) :
    (entries.foldl (fun r e => r.addInterval e.1 e.2.1 e.2.2) r).rack v =
      ((entries.reverse.find? fun e => min e.1 e.2.1 ≤ v ∧ v ≤ max e.1 e.2.1).map fun e => e.2.2).getD (r.rack v) := by
  induction entries generalizing r with
  | nil => rfl
  | cons e entries ih =>
    rw [List.foldl_cons, ih, List.reverse_cons, List.find?_append, rack_addInterval, assignRange]
    cases entries.reverse.find? fun e => min e.1 e.2.1 ≤ v ∧ v ≤ max e.1 e.2.1 with
    | some last => rfl
    | none =>
      by_cases holds : min e.1 e.2.1 ≤ v ∧ v ≤ max e.1 e.2.1
      · simp only [Option.none_or, List.find?_singleton, holds, and_self, decide_true, ↓reduceIte,
          Option.map_some, Option.map_none, Option.getD_some, Option.getD_none]
      · simp only [Option.none_or, List.find?_singleton, holds, decide_false, Bool.false_eq_true, ↓reduceIte,
          Option.map_none, Option.getD_none]

end RackTree

-- the tree `topology_load` builds from a file it reads to the end is a rack tree whose map
-- is `lastRack` of the accepted lines
theorem load_rackTree (racktree : ITree) (fileName : String) (lines : List (List Char)) :
    ∃ r : RackTree, (topologyLoad racktree fileName (.read lines)).1 = r.tree ∧
      r.rack = lastRack (acceptedEntries 1 lines) := by
  let built := (acceptedEntries 1 lines).foldl (fun r e => r.addInterval e.1 e.2.1 e.2.2) RackTree.empty
  have tree : (loadLines nil [] 1 lines).1 = built.tree := by
    rw [loadLines_tree, RackTree.tree_foldl]
    rfl
  have rack : built.rack = lastRack (acceptedEntries 1 lines) := by
    funext v
    rw [RackTree.rack_foldl, RackTree.rack_empty, lastRack]
  -- a tree with ranges is rebalanced, an empty one kept
  by_cases empty : built.tree = nil
  · refine ⟨built, ?_, rack⟩
    simp [topologyLoad, tree, empty]
  · refine ⟨built.rebalance, ?_, by rw [RackTree.rack_rebalance, rack]⟩
    simp [topologyLoad, tree, empty, RackTree.rebalance]

/-- After `topology_load` reads a file to the end, the rack tree is ordered, and
`itree_find` gives each address the rack id of the last accepted line whose range holds it,
`0` when none does: whatever tree there was before. -/
theorem topologyLoad_lastRack (racktree : ITree) (fileName : String) (lines : List (List Char)) :
    Ordered (topologyLoad racktree fileName (.read lines)).1 ∧
      ∀ v, itreeFind (topologyLoad racktree fileName (.read lines)).1 v = lastRack (acceptedEntries 1 lines) v := by
  obtain ⟨r, loaded, rack⟩ := load_rackTree racktree fileName lines
  rw [loaded]
  exact ⟨r.ordered, congrFun rack⟩

/-- After `topology_load` reads a file to the end, `topology_distance` is 0 for one
address when local chunkservers are preferred, 1 for two addresses whose last accepted
lines name one rack, and 2 otherwise. -/
theorem topologyDistance_lastRack (racktree : ITree) (fileName : String) (lines : List (List Char))
    (preferLocalChunkserver : Int) (ip1 ip2 : Nat) :
    topologyDistance (topologyLoad racktree fileName (.read lines)).1 preferLocalChunkserver ip1 ip2 =
      if preferLocalChunkserver ≠ 0 ∧ ip1 = ip2 then 0
      else if lastRack (acceptedEntries 1 lines) ip1 = lastRack (acceptedEntries 1 lines) ip2 then 1 else 2 := by
  obtain ⟨r, loaded, rack⟩ := load_rackTree racktree fileName lines
  rw [topologyDistance, loaded, ← rack]
  rfl

/-! ## Reading back what `ipToString` writes -/

theorem digit_sub_zero {c : Char} (digit : c.isDigit = true) : c.toNat - '0'.toNat = Numeral.digitValue c := by
  simp only [Char.isDigit, Bool.and_eq_true, decide_eq_true_eq] at digit
  have high : c.toNat < 58 := Nat.lt_succ_of_le (UInt32.le_iff_toNat_le.mp digit.2)
  rw [Numeral.digitValue, if_pos high]
  rfl

theorem le_foldl_digits (ds : List Char) (acc : Nat) :
    acc ≤ ds.foldl (fun a c => a * 10 + Numeral.digitValue c) acc := by
  induction ds generalizing acc with
  | nil => exact Nat.le_refl _
  | cons c ds ih => exact Nat.le_trans (show acc ≤ acc * 10 + Numeral.digitValue c by omega) (ih _)

-- the digit loop reads a run of digits whose value stays within a byte
theorem octetDigits_digits (ds rest : List Char) (acc : Nat) (digits : ∀ c ∈ ds, c.isDigit = true)
    (small : ds.foldl (fun a c => a * 10 + Numeral.digitValue c) acc ≤ 255)
    (stop : rest.head?.any Char.isDigit = false) :
    octetDigits acc (ds ++ rest) = some (ds.foldl (fun a c => a * 10 + Numeral.digitValue c) acc, rest) := by
  induction ds generalizing acc with
  | nil =>
    cases rest with
    | nil => rfl
    | cons c rest =>
      simp only [List.head?_cons, Option.any_some] at stop
      simp [octetDigits, stop]
  | cons c ds ih =>
    have digit := digits c List.mem_cons_self
    rw [List.foldl_cons] at small ⊢
    have bound := le_foldl_digits ds (acc * 10 + Numeral.digitValue c)
    rw [List.cons_append, octetDigits, if_pos digit, digit_sub_zero digit, if_neg (by omega)]
    exact ih _ (fun c member => digits c (List.mem_cons_of_mem _ member)) small

theorem digitChar_isDigit : ∀ d < 10, (Nat.digitChar d).toUpper.isDigit = true := by decide

theorem numeral_isDigit {n : Nat} : ∀ c ∈ Numeral.numeral 10 n, c.isDigit = true := by
  intro c member
  obtain ⟨d, below, rfl⟩ := Numeral.mem_numeral (by decide : 2 ≤ 10) (by decide : 10 ≤ 16) member
  exact digitChar_isDigit d below

theorem parseOctet_numeral {n : Nat} (small : n ≤ 255) {rest : List Char} (stop : rest.head?.any Char.isDigit = false) :
    parseOctet (Numeral.numeral 10 n ++ rest) = some (n, rest) := by
  have value := Numeral.value_numeral (by decide : 2 ≤ 10) (by decide : 10 ≤ 16) n
  have read := octetDigits_digits (Numeral.numeral 10 n) rest 0 numeral_isDigit
    (show Numeral.value 10 (Numeral.numeral 10 n) ≤ 255 by rw [value]; exact small) stop
  obtain ⟨c, cs, eq⟩ := List.exists_cons_of_ne_nil (Numeral.numeral_ne_nil 10 n)
  rw [eq] at read
  rw [eq, List.cons_append, parseOctet, if_pos (numeral_isDigit c (eq ▸ List.mem_cons_self)), ← List.cons_append,
    read]
  rw [← eq]
  exact congrArg (fun v => some (v, rest)) value

theorem octetLoop_dot {left ip n : Nat} (small : n ≤ 255) (s : List Char) :
    octetLoop (left + 2) ip (Numeral.numeral 10 n ++ '.' :: s) = octetLoop (left + 1) (ip * 256 + n) s := by
  rw [octetLoop, parseOctet_numeral small rfl]
  rfl

theorem octetLoop_last {ip n : Nat} (small : n ≤ 255) {rest : List Char} (stop : rest.head?.any Char.isDigit = false) :
    octetLoop 1 ip (Numeral.numeral 10 n ++ rest) = some (ip * 256 + n, rest) := by
  rw [octetLoop, parseOctet_numeral small stop]
  rfl

theorem byte_eq (ip i : Nat) : (ip >>> i) &&& 0xff = ip / 2 ^ i % 256 := by
  rw [Nat.shiftRight_eq_div_pow, show (0xff : Nat) = 2 ^ 8 - 1 from rfl, Nat.and_two_pow_sub_one_eq_mod]

theorem ipToString_eq (ip : Nat) : ipToString ip =
    Numeral.numeral 10 (ip / 2 ^ 24 % 256) ++ '.' :: (Numeral.numeral 10 (ip / 2 ^ 16 % 256) ++ '.' ::
      (Numeral.numeral 10 (ip / 2 ^ 8 % 256) ++ '.' :: Numeral.numeral 10 (ip / 2 ^ 0 % 256))) := by
  simp [ipToString, byte_eq]

-- the loop over the octets reads back an address `ipToString` writes
theorem octetLoop_ipToString {ip : Nat} (fits : ip < 2 ^ 32) {rest : List Char}
    (stop : rest.head?.any Char.isDigit = false) :
    octetLoop 4 0 (ipToString ip ++ rest) = some (ip, rest) := by
  rw [ipToString_eq]
  simp only [List.append_assoc, List.cons_append]
  rw [octetLoop_dot (by omega), octetLoop_dot (by omega), octetLoop_dot (by omega), octetLoop_last (by omega) stop]
  congr 2
  omega

/-! ## The block of a prefix length -/

theorem testBit_prefixMask {bits : Nat} (positive : 0 < bits) (le : bits ≤ 32) (i : Nat) :
    (prefixMask bits).testBit i = decide (32 - bits ≤ i ∧ i < 32) := by
  have all : (0xFFFFFFFF : Nat) = 2 ^ 32 - 1 := rfl
  rw [prefixMask]
  split
  · have count : (32 - bits).toUInt32.toNat % 32 = 32 - bits := by
      simp only [Nat.toUInt32, UInt32.toNat_ofNat']
      omega
    rw [UInt32.toNat_shiftLeft, count, UInt32.toNat_ofNat, Nat.testBit_mod_two_pow, Nat.testBit_shiftLeft]
    rw [show (0xFFFFFFFF : Nat) % 2 ^ 32 = 2 ^ 32 - 1 from rfl, Nat.testBit_two_pow_sub_one]
    rw [Bool.eq_iff_iff]
    simp only [Bool.and_eq_true, decide_eq_true_eq]
    omega
  · rw [all, Nat.testBit_two_pow_sub_one, Bool.eq_iff_iff]
    simp only [decide_eq_true_eq]
    omega

theorem and_prefixMask {ip bits : Nat} (fits : ip < 2 ^ 32) (positive : 0 < bits) (le : bits ≤ 32) :
    ip &&& prefixMask bits = ip / 2 ^ (32 - bits) * 2 ^ (32 - bits) := by
  apply Nat.eq_of_testBit_eq
  intro i
  rw [Nat.testBit_and, testBit_prefixMask positive le, Nat.testBit_mul_two_pow, Nat.testBit_div_two_pow]
  by_cases low : 32 - bits ≤ i
  · by_cases high : i < 32
    · simp [low, high, Nat.sub_add_cancel low]
    · have : ip.testBit i = false := Nat.testBit_lt_two_pow (Nat.lt_of_lt_of_le fits (Nat.pow_le_pow_right (by decide) (by omega)))
      simp [low, high, Nat.sub_add_cancel low, this]
  · simp [low]

theorem prefixMask_xor {bits : Nat} (positive : 0 < bits) (le : bits ≤ 32) :
    prefixMask bits ^^^ 0xFFFFFFFF = 2 ^ (32 - bits) - 1 := by
  apply Nat.eq_of_testBit_eq
  intro i
  rw [Nat.testBit_xor, testBit_prefixMask positive le, show (0xFFFFFFFF : Nat) = 2 ^ 32 - 1 from rfl,
    Nat.testBit_two_pow_sub_one, Nat.testBit_two_pow_sub_one, Bool.eq_iff_iff]
  simp only [bne_iff_ne, ne_eq, decide_eq_decide, decide_eq_true_eq]
  omega

theorem octetLoop_ipToString_alone {ip : Nat} (fits : ip < 2 ^ 32) : octetLoop 4 0 (ipToString ip) = some (ip, []) := by
  simpa only [List.append_nil] using @octetLoop_ipToString ip fits [] rfl

theorem ipToString_ne_star (ip : Nat) (rest : List Char) : ipToString ip ++ rest ≠ ['*'] := by
  obtain ⟨c, cs, eq⟩ := List.exists_cons_of_ne_nil (Numeral.numeral_ne_nil 10 (ip / 2 ^ 24 % 256))
  have digit := numeral_isDigit c (eq ▸ List.mem_cons_self)
  rw [ipToString_eq, eq]
  intro star
  simp only [List.cons_append, List.cons.injEq] at star
  rw [star.1] at digit
  exact absurd digit (by decide)

/-- `topology_parsenet` reads back an address `ipToString` writes, alone or as the ends of a range. -/
theorem topologyParsenet_ipToString {ip : Nat} (fits : ip < 2 ^ 32) :
    topologyParsenet (ipToString ip) = some (ip, ip) ∧
      ∀ toip < 2 ^ 32, topologyParsenet (ipToString ip ++ '-' :: ipToString toip) = some (ip, toip) := by
  refine ⟨?_, fun toip below => ?_⟩
  · have star : ipToString ip ≠ ['*'] := by simpa only [List.append_nil] using ipToString_ne_star ip []
    rw [topologyParsenet, if_neg star, octetLoop_ipToString_alone fits]
  · rw [topologyParsenet, if_neg (ipToString_ne_star ip _), octetLoop_ipToString fits rfl]
    simp only [octetLoop_ipToString_alone below]

theorem topologyParsenet_ipToString_lan :
    topologyParsenet (ipToString 3232235777) = some (3232235777, 3232235777) ∧
      ∀ toip < 2 ^ 32, topologyParsenet (ipToString 3232235777 ++ '-' :: ipToString toip) = some (3232235777, toip) :=
  topologyParsenet_ipToString (by decide)

/-- `topology_parsenet` of `ip/bits` is the block of the addresses that agree with `ip`
on their first `bits` bits. -/
theorem topologyParsenet_prefix {ip bits : Nat} (fits : ip < 2 ^ 32) (positive : 0 < bits) (le : bits ≤ 32) :
    ∃ fromip toip, topologyParsenet (ipToString ip ++ '/' :: Numeral.numeral 10 bits) = some (fromip, toip) ∧
      ∀ v, fromip ≤ v ∧ v ≤ toip ↔ v / 2 ^ (32 - bits) = ip / 2 ^ (32 - bits) := by
  have mask : parseMask (Numeral.numeral 10 bits) = some (prefixMask bits) := by
    have read := @parseOctet_numeral bits (by omega) [] rfl
    rw [List.append_nil] at read
    rw [parseMask, read]
    dsimp only
    rw [if_pos ⟨rfl, le⟩]
  have block : 0 < 2 ^ (32 - bits) := Nat.two_pow_pos _
  refine ⟨ip / 2 ^ (32 - bits) * 2 ^ (32 - bits), ip / 2 ^ (32 - bits) * 2 ^ (32 - bits) + 2 ^ (32 - bits) - 1,
    ?_, fun v => (Nat.div_eq_iff block).symm⟩
  rw [topologyParsenet, if_neg (ipToString_ne_star ip _), octetLoop_ipToString fits rfl]
  simp only [mask, Option.map_some, and_prefixMask fits positive le, prefixMask_xor positive le]
  rw [← Nat.shiftLeft_eq, ← Nat.shiftLeft_add_eq_or_of_lt (Nat.sub_lt block Nat.one_pos), Nat.add_sub_assoc block]

theorem topologyParsenet_prefix_eight :
    ∃ fromip toip, topologyParsenet (ipToString 167772161 ++ '/' :: Numeral.numeral 10 8) = some (fromip, toip) ∧
      ∀ v, fromip ≤ v ∧ v ≤ toip ↔ v / 2 ^ (32 - 8) = 167772161 / 2 ^ (32 - 8) :=
  topologyParsenet_prefix (by decide) (by decide) (by decide)

-- `/0`, where the source shifts by 32, keeps every bit of the mask: the one address
example : topologyParsenet "10.0.0.1/0".toList = some (167772161, 167772161) := by decide

theorem strtoulRid_numeral {rid : Nat} (fits : rid < 2 ^ 32) : strtoulRid (Numeral.numeral 10 rid) = rid := by
  rw [strtoulRid, Numeral.value_numeral (by decide : 2 ≤ 10) (by decide : 10 ≤ 16),
    Nat.min_eq_left (by omega), Nat.mod_eq_of_lt fits]

/-- A line of a network and a rack id, apart by a blank, reads as the range
`topology_parsenet` gives the network, and the id. -/
theorem topologyParseline_entry {net : List Char} {fromip toip : Nat} (parsed : topologyParsenet net = some (fromip, toip))
    (word : ∀ c ∈ net, isBlank c = false) (start : net.head?.any (fun c => c = '#' || c = '\r' || c = '\n') = false)
    {rid : Nat} (fits : rid < 2 ^ 32) (lineno : Nat) :
    topologyParseline (net ++ ' ' :: Numeral.numeral 10 rid) lineno = .ok (fromip, toip, rid) := by
  cases net with
  | nil => cases parsed
  | cons c cs =>
    simp only [List.head?_cons, Option.any_some, Bool.or_eq_false_iff, decide_eq_false_iff_not] at start
    have notBlank : ∀ d : Char, d.isDigit = true → isBlank d = false := by
      intro d digit
      simp only [isBlank, Bool.or_eq_false_iff, decide_eq_false_iff_not]
      constructor <;> (rintro rfl; exact absurd digit (by decide))
    obtain ⟨d, ds, eq⟩ := List.exists_cons_of_ne_nil (Numeral.numeral_ne_nil 10 rid)
    have digit : d.isDigit = true := numeral_isDigit d (eq ▸ List.mem_cons_self)
    -- the source walks the blanks in front, the word, the blank and the digits
    have front : (c :: cs ++ ' ' :: Numeral.numeral 10 rid).dropWhile isBlank = c :: cs ++ ' ' :: Numeral.numeral 10 rid :=
      List.dropWhile_cons_of_neg (by simp [word c List.mem_cons_self])
    have netWord : (c :: cs ++ ' ' :: Numeral.numeral 10 rid).takeWhile (fun c => !isBlank c) = c :: cs := by
      rw [List.takeWhile_append_of_pos (by simpa using word), List.takeWhile_cons_of_neg (by decide), List.append_nil]
    have afterWord : (c :: cs ++ ' ' :: Numeral.numeral 10 rid).dropWhile (fun c => !isBlank c) =
        ' ' :: Numeral.numeral 10 rid := by
      rw [List.dropWhile_append_of_pos (by simpa using word), List.dropWhile_cons_of_neg (by decide)]
    have ridFront : (Numeral.numeral 10 rid).dropWhile isBlank = d :: ds := by
      rw [eq, List.dropWhile_cons_of_neg (by simp [notBlank d digit])]
    have ridDigits : (d :: ds).takeWhile Char.isDigit = Numeral.numeral 10 rid := by
      rw [← eq, List.takeWhile_eq_self_iff]
      exact numeral_isDigit
    have ridEnd : (d :: ds).dropWhile Char.isDigit = [] := by
      rw [← eq, List.dropWhile_eq_nil_iff]
      exact numeral_isDigit
    simp only [topologyParseline, List.cons_append, List.head?_cons, Option.some.injEq, start.1.1, if_false]
    simp only [← List.cons_append, front, netWord, afterWord, parsed]
    simp [atLineEnd, start.1.2, start.2, ridFront, ridDigits, ridEnd, digit, strtoulRid_numeral fits]

theorem topologyParseline_entry_eight :
    topologyParseline ("10.0.0.0/8".toList ++ ' ' :: Numeral.numeral 10 3) 1 = .ok (167772160, 184549375, 3) :=
  topologyParseline_entry (by decide +kernel) (by simp [isBlank]) rfl (by decide) 1

end SaunaFS
