import Mathlib.Data.List.TakeWhile

/-!
# The parts of an address

What follows the scheme of an address is an authority, up to the first `/`, `?` or `#`, and a path,
up to a query or a fragment. The port stands in the authority, after a user and a host, and the host
may be in brackets. `port_append_iff` and `path_append` say when a port and a path that are written
after a host are read as such.
-/

namespace Url

/-- A character that ends the authority. -/
def isDelimiter (c : Char) : Bool := c = '/' ∨ c = '?' ∨ c = '#'

/-- A character that does not end the path. -/
def inPath (c : Char) : Bool := c ≠ '?' ∧ c ≠ '#'

/-- A character that tells the parts of an authority from each other. -/
def isSeparator (c : Char) : Bool := c = ':' ∨ c = '@' ∨ c = '[' ∨ c = ']'

/-- The authority: a user, a host and a port. -/
def authority (address : List Char) : List Char := address.takeWhile fun c => !isDelimiter c

/-- The path. -/
def path (address : List Char) : List Char :=
  (address.dropWhile fun c => !isDelimiter c).takeWhile inPath

/-- What follows the user. -/
def hostInfo (authority : List Char) : List Char := (authority.reverse.takeWhile (· ≠ '@')).reverse

/-- The part in which the first colon begins the port: what follows a host in brackets, or the host
with the port. -/
def portPart (authority : List Char) : List Char :=
  if '[' ∈ hostInfo authority then ((hostInfo authority).dropWhile (· ≠ '[')).dropWhile (· ≠ ']')
  else hostInfo authority

/-- The port, empty when there is none. -/
def port (authority : List Char) : List Char := ((portPart authority).dropWhile (· ≠ ':')).tail

/-- A host, after which a colon begins a port. -/
structure IsHost (host : List Char) : Prop where
  plain : ∀ c ∈ host, isDelimiter c = false
  closed : '[' ∈ hostInfo host → portPart host ≠ []
  colon : ':' ∉ portPart host

section Append

variable {host suffix digits : List Char}

/-! ## The port after a host -/

theorem hostInfo_append (hsuffix : '@' ∉ suffix) :
    hostInfo (host ++ suffix) = hostInfo host ++ suffix := by
  have hplain : ∀ c ∈ suffix.reverse, decide (c ≠ '@') = true := fun c hc =>
    decide_eq_true fun h => hsuffix (h ▸ List.mem_reverse.mp hc)
  rw [hostInfo, List.reverse_append, List.takeWhile_append_of_pos hplain, List.reverse_append,
    List.reverse_reverse, hostInfo]

theorem dropWhile_append_of_mem {α : Type*} {p : α → Bool} {xs : List α} {x : α} (hx : x ∈ xs)
    (hp : p x = false) (ys : List α) : (xs ++ ys).dropWhile p = xs.dropWhile p ++ ys := by
  rw [List.dropWhile_append, if_neg]
  intro hempty
  have hall := List.dropWhile_eq_nil_iff.mp (List.isEmpty_iff.mp hempty) x hx
  rw [hp] at hall
  cases hall

/-- An open bracket takes all that follows. -/
theorem portPart_append (hsuffix : ∀ c ∈ suffix, isSeparator c → c = ':') :
    portPart (host ++ suffix) =
      if '[' ∈ hostInfo host ∧ portPart host = [] then [] else portPart host ++ suffix := by
  have hnot : ∀ c, isSeparator c → c ≠ ':' → c ∉ suffix := fun c hc hne hmem =>
    hne (hsuffix c hmem hc)
  have hopen : '[' ∈ hostInfo host ++ suffix ↔ '[' ∈ hostInfo host :=
    List.mem_append.trans (or_iff_left (hnot '[' rfl (by decide)))
  unfold portPart
  rw [hostInfo_append (hnot '@' rfl (by decide))]
  simp only [hopen]
  by_cases hbracket : '[' ∈ hostInfo host
  · have hclosed : suffix.dropWhile (· ≠ ']') = [] :=
      List.dropWhile_eq_nil_iff.mpr fun c hc =>
        decide_eq_true fun h => hnot ']' rfl (by decide) (h ▸ hc)
    simp only [hbracket, true_and, if_true]
    rw [dropWhile_append_of_mem hbracket (by decide), List.dropWhile_append, hclosed]
    simp only [List.isEmpty_iff]
  · simp only [hbracket, false_and, if_false]

/-- **The port after a host** is read when the host leaves no bracket open and no colon before
it. -/
theorem port_append_iff (hdigits : ∀ c ∈ digits, isSeparator c = false) (hne : digits ≠ []) :
    port (host ++ ':' :: digits) = digits ↔
      ('[' ∈ hostInfo host → portPart host ≠ []) ∧ ':' ∉ portPart host := by
  have hsuffix : ∀ c ∈ ':' :: digits, isSeparator c → c = ':' := by
    intro c hc hseparator
    refine (List.mem_cons.mp hc).resolve_right fun hdigit => ?_
    rw [hdigits c hdigit] at hseparator
    cases hseparator
  unfold port
  rw [portPart_append hsuffix]
  by_cases hopen : '[' ∈ hostInfo host ∧ portPart host = []
  · rw [if_pos hopen]
    exact ⟨fun h => absurd h.symm hne, fun h => absurd hopen.2 (h.1 hopen.1)⟩
  rw [if_neg hopen]
  have hclosed : '[' ∈ hostInfo host → portPart host ≠ [] := fun h hnil => hopen ⟨h, hnil⟩
  by_cases hcolon : ':' ∈ portPart host
  · rw [dropWhile_append_of_mem hcolon (by decide)]
    refine ⟨fun h => ?_, fun h => absurd hcolon h.2⟩
    have hrest : (portPart host).dropWhile (· ≠ ':') ≠ [] := fun hnil =>
      absurd (List.dropWhile_eq_nil_iff.mp hnil ':' hcolon) (by decide)
    have hlength := congrArg List.length h
    rw [List.tail_append_of_ne_nil hrest, List.length_append, List.length_cons] at hlength
    omega
  · have hbefore : ∀ c ∈ portPart host, decide (c ≠ ':') = true := fun c hc =>
      decide_eq_true fun h => hcolon (h ▸ hc)
    rw [List.dropWhile_append_of_pos hbefore]
    exact iff_of_true rfl ⟨hclosed, hcolon⟩

/-! ## The authority and the path -/

variable {rest : List Char}

theorem not_isDelimiter (hplain : ∀ c ∈ host, isDelimiter c = false) :
    ∀ c ∈ host, (!isDelimiter c) = true := fun c hc => by rw [hplain c hc, Bool.not_false]

theorem authority_append (hplain : ∀ c ∈ host, isDelimiter c = false) :
    authority (host ++ '/' :: rest) = host := by
  rw [authority, List.takeWhile_append_of_pos (not_isDelimiter hplain)]
  exact List.append_nil host

theorem path_append (hplain : ∀ c ∈ host, isDelimiter c = false)
    (hrest : ∀ c ∈ rest, inPath c) : path (host ++ '/' :: rest) = '/' :: rest := by
  rw [path, List.dropWhile_append_of_pos (not_isDelimiter hplain)]
  refine List.takeWhile_eq_self_iff.mpr fun c hc => ?_
  rcases List.mem_cons.mp hc with rfl | hc
  · rfl
  · exact hrest c hc

/-- A text that ends the authority cuts the path off from what follows, or leaves it in front. -/
theorem path_append_of_delimiter {c : Char} (hc : c ∈ host) (hdelimiter : isDelimiter c) :
    (∀ xs ys, path (host ++ xs) = path (host ++ ys)) ∨
      ∀ xs, xs.takeWhile inPath <:+ path (host ++ xs) := by
  have hdrop : ∀ xs, (host ++ xs).dropWhile (fun c => !isDelimiter c) =
      host.dropWhile (fun c => !isDelimiter c) ++ xs :=
    dropWhile_append_of_mem hc (by rw [hdelimiter, Bool.not_true])
  unfold path
  simp only [hdrop]
  by_cases hquery : ∀ c ∈ host.dropWhile (fun c => !isDelimiter c), inPath c
  · exact .inr fun xs => by
      rw [List.takeWhile_append_of_pos hquery]
      exact List.suffix_append _ _
  · have hshort : ((host.dropWhile fun c => !isDelimiter c).takeWhile inPath).length ≠
        (host.dropWhile fun c => !isDelimiter c).length := fun h =>
      hquery (List.takeWhile_eq_self_iff.mp ((List.takeWhile_prefix _).eq_of_length h))
    exact .inl fun xs ys => by
      rw [List.takeWhile_append, List.takeWhile_append, if_neg hshort, if_neg hshort]

end Append

end Url
