import Gigaboot.Lib.Digits
import Mathlib.Data.List.Basic

/-!
# Groups in hexadecimal

Texts of 16-bit groups in hexadecimal, separated by colons, where one double colon may stand
for groups that are zero.

* `parseGroups_joined`: groups that were joined are read back;
* `parseElided_joined`, `parseElided_elided`: the same with a fixed number of groups, when none
  or some of them were left out.
-/

namespace HexText

open Digits

/-! ## Groups -/

def hex (g : UInt16) : List Char := Nat.toDigits 16 g.toNat

/-- A group is written in one to four digits. -/
def parseGroup (text : List Char) : Option UInt16 :=
  if 1 ≤ text.length ∧ text.length ≤ 4 then (value 16 text).map UInt16.ofNat else none

theorem hex_length_pos (g : UInt16) : 0 < (hex g).length := Nat.length_toDigits_pos

theorem hex_length_le (g : UInt16) : (hex g).length ≤ 4 :=
  (Nat.length_toDigits_le_iff (by decide) (by decide)).mpr g.toNat_lt

theorem value_hex (g : UInt16) : value 16 (hex g) = some g.toNat := by
  have h := value_digits (by decide) id_spells g.toNat
  rwa [digits, List.map_id] at h

theorem parseGroup_hex (g : UInt16) : parseGroup (hex g) = some g := by
  rw [parseGroup, if_pos ⟨hex_length_pos g, hex_length_le g⟩, value_hex, Option.map_some,
    UInt16.ofNat_toNat]

theorem colon_not_mem_hex (g : UInt16) : ':' ∉ hex g := fun h =>
  digitVal_of_valueFrom (value_hex g) ':' h (by decide)

def joined (gs : List UInt16) : List Char := [':'].intercalate (gs.map hex)

theorem joined_singleton (g : UInt16) : joined [g] = hex g := by
  simp [joined, List.intercalate]

theorem joined_cons (g : UInt16) {gs : List UInt16} (h : gs ≠ []) :
    joined (g :: gs) = hex g ++ ':' :: joined gs := by
  cases gs with
  | nil => exact absurd rfl h
  | cons g' gs => simp [joined, List.intercalate]

theorem joined_eq (g : UInt16) (gs : List UInt16) :
    joined (g :: gs) = hex g ++ gs.flatMap fun g => ':' :: hex g := by
  induction gs generalizing g with
  | nil => rw [joined_singleton, List.flatMap_nil, List.append_nil]
  | cons g' gs ih =>
    rw [joined_cons g (by nofun), ih, List.flatMap_cons]
    rfl

theorem joined_ne_nil {gs : List UInt16} (h : gs ≠ []) : joined gs ≠ [] := by
  cases gs with
  | nil => exact absurd rfl h
  | cons g gs =>
    intro hnil
    rw [joined_eq] at hnil
    have hlen := hex_length_pos g
    rw [(List.append_eq_nil_iff.mp hnil).1] at hlen
    exact Nat.lt_irrefl 0 hlen

theorem flatMap_colon {gs : List UInt16} (h : gs ≠ []) :
    (gs.flatMap fun g => ':' :: hex g) = ':' :: joined gs := by
  cases gs with
  | nil => exact absurd rfl h
  | cons g gs => rw [List.flatMap_cons, joined_eq, List.cons_append]

/-- Groups take four characters and a colon each, less the last colon. -/
theorem joined_length_lt {gs : List UInt16} (h : gs ≠ []) :
    (joined gs).length < 5 * gs.length := by
  induction gs with
  | nil => exact absurd rfl h
  | cons g gs ih =>
    have hg := hex_length_le g
    cases gs with
    | nil =>
      rw [joined_singleton, List.length_singleton]
      omega
    | cons g' gs =>
      have hrest := ih (by nofun)
      rw [joined_cons g (by nofun), List.length_append, List.length_cons, List.length_cons]
      omega

theorem joined_length_le (gs : List UInt16) : (joined gs).length ≤ 5 * gs.length := by
  cases gs with
  | nil => exact Nat.le_refl 0
  | cons g gs => exact Nat.le_of_lt (joined_length_lt (by nofun))

/-- The groups of a text, none of which is left out. -/
def parseGroups (text : List Char) : Option (List UInt16) :=
  if text = [] then some [] else (text.splitOn ':').mapM parseGroup

theorem mapM_parseGroup (gs : List UInt16) : (gs.map hex).mapM parseGroup = some gs := by
  induction gs with
  | nil => rfl
  | cons g gs ih =>
    rw [List.map_cons, List.mapM_cons, parseGroup_hex, ih]
    rfl

theorem parseGroups_joined (gs : List UInt16) : parseGroups (joined gs) = some gs := by
  cases gs with
  | nil => rfl
  | cons g gs =>
    have hpieces : ∀ t ∈ (g :: gs).map hex, ':' ∉ t := by
      intro t ht
      obtain ⟨g', -, rfl⟩ := List.mem_map.mp ht
      exact colon_not_mem_hex g'
    rw [parseGroups, if_neg (joined_ne_nil (by nofun)), joined,
      List.splitOn_intercalate _ hpieces (by nofun), mapM_parseGroup]

/-! ## The double colon -/

/-- The text before and after the first double colon. -/
def splitDouble : List Char → Option (List Char × List Char)
  | [] => none
  | c :: cs =>
    if c = ':' ∧ cs.head? = some ':' then some ([], cs.tail)
    else (splitDouble cs).map fun p => (c :: p.1, p.2)

/-- The `n` groups of a text in which one double colon may stand for one or more groups that
are zero. -/
def parseElided (n : Nat) (text : List Char) : Option (List UInt16) :=
  match splitDouble text with
  | none =>
    match parseGroups text with
    | none => none
    | some gs => if gs.length = n then some gs else none
  | some (before, after) =>
    match parseGroups before, parseGroups after with
    | some gs, some gs' =>
      if gs.length + gs'.length < n then
        some (gs ++ List.replicate (n - gs.length - gs'.length) 0 ++ gs')
      else none
    | _, _ => none

theorem splitDouble_append {t : List Char} (h : ':' ∉ t) (cs : List Char) :
    splitDouble (t ++ cs) = (splitDouble cs).map fun p => (t ++ p.1, p.2) := by
  induction t with
  | nil => simp
  | cons c t ih =>
    have hc : c ≠ ':' := fun he => h (he ▸ List.mem_cons_self)
    have ht : ':' ∉ t := fun hm => h (List.mem_cons_of_mem _ hm)
    rw [List.cons_append, splitDouble, if_neg (fun hd => hc hd.1), ih ht, Option.map_map]
    rfl

theorem head_joined {gs : List UInt16} (h : gs ≠ []) (cs : List Char) :
    (joined gs ++ cs).head? ≠ some ':' := by
  cases gs with
  | nil => exact absurd rfl h
  | cons g gs =>
    obtain ⟨c, t, hct⟩ := List.exists_cons_of_length_pos (hex_length_pos g)
    have hc : c ≠ ':' := fun he => colon_not_mem_hex g (by rw [hct, he]; exact List.mem_cons_self)
    rw [joined_eq, hct]
    exact fun he => hc (Option.some.inj he)

/-- The first double colon after groups is the one behind them. -/
theorem splitDouble_joined (gs : List UInt16) (cs : List Char) :
    splitDouble (joined gs ++ ':' :: ':' :: cs) = some (joined gs, cs) := by
  induction gs with
  | nil => rfl
  | cons g gs ih =>
    cases gs with
    | nil =>
      rw [joined_singleton, splitDouble_append (colon_not_mem_hex g)]
      simp [splitDouble]
    | cons g' gs =>
      have hone : splitDouble (':' :: (joined (g' :: gs) ++ ':' :: ':' :: cs)) =
          some (':' :: joined (g' :: gs), cs) := by
        rw [splitDouble, if_neg (fun hd => head_joined (by nofun) _ hd.2), ih]
        rfl
      rw [joined_cons g (by nofun), List.append_assoc, splitDouble_append (colon_not_mem_hex g),
        List.cons_append, hone]
      rfl

theorem splitDouble_joined_none (gs : List UInt16) : splitDouble (joined gs) = none := by
  have hhex : ∀ g, splitDouble (hex g) = none := by
    intro g
    have h := splitDouble_append (colon_not_mem_hex g) []
    rwa [List.append_nil] at h
  induction gs with
  | nil => rfl
  | cons g gs ih =>
    cases gs with
    | nil => rw [joined_singleton, hhex]
    | cons g' gs =>
      have hne := head_joined (List.cons_ne_nil g' gs) []
      rw [List.append_nil] at hne
      rw [joined_cons g (by nofun), splitDouble_append (colon_not_mem_hex g), splitDouble,
        if_neg (fun hd => hne hd.2), ih]
      rfl

theorem parseElided_joined (gs : List UInt16) : parseElided gs.length (joined gs) = some gs := by
  rw [parseElided, splitDouble_joined_none, parseGroups_joined]
  exact if_pos rfl

/-- A text in which the double colon stands for `k` groups. -/
theorem parseElided_elided (gs gs' : List UInt16) {k : Nat} (hk : 0 < k) :
    parseElided (gs.length + k + gs'.length) (joined gs ++ ':' :: ':' :: joined gs') =
      some (gs ++ List.replicate k 0 ++ gs') := by
  rw [parseElided, splitDouble_joined]
  dsimp only
  rw [parseGroups_joined, parseGroups_joined]
  dsimp only
  rw [if_pos (by omega)]
  have hcount : gs.length + k + gs'.length - gs.length - gs'.length = k := by omega
  rw [hcount]

end HexText
