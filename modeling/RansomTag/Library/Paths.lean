import Mathlib.Data.List.DropRight

/-!
# Paths and names

What the functions of a POSIX path library cut out of a path, over lists of
characters, and how the suffixes of a name can be told apart.
-/

namespace Paths

/-! ## Suffixes -/

section

variable {α : Type} {p : α → Bool} {xs ys : List α} {x : α}

theorem rtakeWhile_append (hys : ∀ y ∈ ys, p y = true) :
    (xs ++ ys).rtakeWhile p = xs.rtakeWhile p ++ ys := by
  have hreverse : ∀ y ∈ ys.reverse, p y = true := fun y hy => hys y (List.mem_reverse.mp hy)
  unfold List.rtakeWhile
  rw [List.reverse_append, List.takeWhile_append_of_pos hreverse, List.reverse_append,
    List.reverse_reverse]

/-- Behind an element that ends it, the longest suffix begins. -/
theorem rtakeWhile_append_cons (hx : p x = false) (hys : ∀ y ∈ ys, p y = true) :
    (xs ++ x :: ys).rtakeWhile p = ys := by
  have hsplit : xs ++ x :: ys = (xs ++ [x]) ++ ys := by rw [List.append_assoc]; rfl
  rw [hsplit, rtakeWhile_append hys, List.rtakeWhile_concat_neg _ _ _ (by simp [hx]),
    List.nil_append]

end

/-! ## Parts of a path -/

/-- `os.path.basename` -/
def basename (path : List Char) : List Char := path.rtakeWhile (· ≠ '/')

/-- `os.path.split` -/
def split (path : List Char) : List Char × List Char :=
  let head := path.rdropWhile (· ≠ '/')
  (if head.all (· = '/') then head else head.rdropWhile (· = '/'), basename path)

/-- `os.path.splitext`: the extension begins at the last dot, and not at a dot that only
dots are before. -/
def splitext (path : List Char) : List Char × List Char :=
  let front := (basename path).rdropWhile (· ≠ '.')
  if front.dropLast.any (· ≠ '.') then
    (path.rdropWhile (· ≠ '/') ++ front.dropLast, '.' :: (basename path).rtakeWhile (· ≠ '.'))
  else (path, [])

variable {path : List Char}

theorem slash_notMem_basename : '/' ∉ basename path := by
  intro hmem
  have hkept := List.mem_rtakeWhile_imp hmem
  exact absurd hkept (by decide)

/-- Behind a directory, a name without slashes is kept. -/
theorem basename_append {name : List Char} (hname : '/' ∉ name) :
    basename (path ++ name) = basename path ++ name :=
  rtakeWhile_append fun _ hc => decide_eq_true fun hslash => hname (hslash ▸ hc)

theorem splitext_append : (splitext path).1 ++ (splitext path).2 = path := by
  unfold splitext
  dsimp only
  split_ifs with hfront
  · have hne : (basename path).rdropWhile (· ≠ '.') ≠ [] := by
      intro hnil
      rw [hnil] at hfront
      cases hfront
    have hlast : ((basename path).rdropWhile (· ≠ '.')).getLast hne = '.' := by
      simpa using List.rdropWhile_last_not _ _ hne
    have hdot : ((basename path).rdropWhile (· ≠ '.')).dropLast ++ ['.'] =
        (basename path).rdropWhile (· ≠ '.') := by
      have hback := List.dropLast_append_getLast hne
      rw [hlast] at hback
      exact hback
    have hbase : ((basename path).rdropWhile (· ≠ '.')).dropLast ++
        '.' :: (basename path).rtakeWhile (· ≠ '.') = basename path := by
      calc
        _ = (((basename path).rdropWhile (· ≠ '.')).dropLast ++ ['.']) ++
              (basename path).rtakeWhile (· ≠ '.') := by rw [List.append_assoc]; rfl
        _ = basename path := by rw [hdot, List.rdropWhile_append_rtakeWhile]
    rw [List.append_assoc, hbase]
    exact List.rdropWhile_append_rtakeWhile
  · exact List.append_nil path

/-- An extension is empty or has its only dot in front. -/
theorem splitext_ext : (splitext path).2 = [] ∨
    ∃ ext, (splitext path).2 = '.' :: ext ∧ '.' ∉ ext := by
  unfold splitext
  dsimp only
  split_ifs with hfront
  · refine .inr ⟨_, rfl, fun hmem => ?_⟩
    have hkept := List.mem_rtakeWhile_imp hmem
    exact absurd hkept (by decide)
  · exact .inl rfl

/-! ## Numbers in names -/

/-- `str(n)` -/
def digits (n : Nat) : List Char := Nat.toDigits 10 n

theorem isDigit_digits {n : Nat} {c : Char} (hc : c ∈ digits n) : c.isDigit = true :=
  Nat.isDigit_of_mem_toDigits (by decide) (by decide) hc

theorem digits_injective {m n : Nat} (h : digits m = digits n) : m = n := by
  have hvalue := congrArg (fun ds => Nat.ofDigitChars 10 ds 0) h
  simpa [digits] using hvalue

theorem notMem_digits {c : Char} (hc : c.isDigit = false) (n : Nat) : c ∉ digits n := by
  intro hmem
  rw [isDigit_digits hmem] at hc
  cases hc

/-- Behind a character that is none, the digits at the end of a name are its number. -/
theorem numbered_inj {xs ys : List Char} {c d : Char} {m n : Nat} (hc : c.isDigit = false)
    (hd : d.isDigit = false) (h : xs ++ c :: digits m = ys ++ d :: digits n) :
    xs ++ [c] = ys ++ [d] ∧ m = n := by
  have hdigits : digits m = digits n := by
    have hsuffix := congrArg (List.rtakeWhile Char.isDigit) h
    rwa [rtakeWhile_append_cons hc fun _ => isDigit_digits,
      rtakeWhile_append_cons hd fun _ => isDigit_digits] at hsuffix
  refine ⟨?_, digits_injective hdigits⟩
  have hsplit : (xs ++ [c]) ++ digits m = (ys ++ [d]) ++ digits m := by
    rw [List.append_assoc, List.append_assoc, List.singleton_append, List.singleton_append, h,
      hdigits]
  exact List.append_cancel_right hsplit

end Paths
