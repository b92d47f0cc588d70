import Mathlib

/-!
# Glob patterns

The patterns of `SCAN MATCH`, over bytes: `*` matches any bytes, `?` one byte, `[ae]`,
`[a-z]` and `[^a]` one byte of a set, and a backslash takes the next byte as it is.

A pattern is read part by part (`parse`).  One of plain bytes with a `*` behind matches
what starts with these bytes (`globMatch_star_iff`).
-/

namespace Glob

/-- A part of a pattern; a set is given by ranges, of which either end may
come first. -/
inductive Part
  | star
  | any
  | set (negated : Bool) (ranges : List (ℕ × ℕ))
  | byte (b : ℕ)

/-- The parts of a pattern.  The first argument is the set that is being read;
one that is not closed ends with the pattern. -/
def parse : Option (Bool × List (ℕ × ℕ)) → List ℕ → List Part
  | none, [] => []
  | none, 0x2a :: p => .star :: parse none p
  | none, 0x3f :: p => .any :: parse none p
  | none, 0x5b :: 0x5e :: p => parse (some (true, [])) p
  | none, 0x5b :: p => parse (some (false, [])) p
  | none, 0x5c :: b :: p => .byte b :: parse none p
  | none, b :: p => .byte b :: parse none p
  | some (negated, ranges), [] => [.set negated ranges]
  | some (negated, ranges), 0x5c :: b :: p => parse (some (negated, (b, b) :: ranges)) p
  | some (negated, ranges), 0x5d :: p => .set negated ranges :: parse none p
  | some (negated, ranges), a :: 0x2d :: b :: p => parse (some (negated, (a, b) :: ranges)) p
  | some (negated, ranges), b :: p => parse (some (negated, (b, b) :: ranges)) p

/-- The part matches a byte. -/
def Part.accepts (b : ℕ) : Part → Bool
  | .star | .any => true
  | .set negated ranges =>
      negated != ranges.any fun r => min r.1 r.2 ≤ b && b ≤ max r.1 r.2
  | .byte a => a == b

/-- The bytes are matched part by part; a star takes as many of them as it
likes. -/
def matchParts : List Part → List ℕ → Bool
  | [], bytes => bytes.isEmpty
  | .star :: parts, bytes => bytes.tails.any (matchParts parts)
  | _ :: _, [] => false
  | part :: parts, b :: bytes => part.accepts b && matchParts parts bytes

/-- The pattern matches the bytes. -/
def globMatch (pattern bytes : List ℕ) : Bool := matchParts (parse none pattern) bytes

/-- A byte that stands for itself: none of `*`, `?`, `[` and the backslash. -/
def isPlain (b : ℕ) : Bool := b != 0x2a && b != 0x3f && b != 0x5b && b != 0x5c

theorem parse_plain {b : ℕ} (h : isPlain b = true) (p : List ℕ) :
    parse none (b :: p) = .byte b :: parse none p := by
  simp only [isPlain, Bool.and_eq_true, bne_iff_ne] at h
  obtain ⟨⟨⟨hstar, hany⟩, hset⟩, hescape⟩ := h
  rw [parse]
  all_goals simp_all

theorem parse_plain_append {p : List ℕ} (h : ∀ b ∈ p, isPlain b = true) (q : List ℕ) :
    parse none (p ++ q) = p.map .byte ++ parse none q := by
  induction p with
  | nil => rfl
  | cons b p ih =>
      have hb := h b (List.mem_cons_self ..)
      rw [List.cons_append, parse_plain hb, ih fun c hc => h c (List.mem_cons_of_mem _ hc)]
      rfl

theorem matchParts_star (bytes : List ℕ) : matchParts [.star] bytes = true := by
  simp only [matchParts, List.any_eq_true]
  exact ⟨[], by simp, rfl⟩

/-- Bytes with a star behind them match what begins with them. -/
theorem matchParts_bytes_star (p bytes : List ℕ) :
    matchParts (p.map .byte ++ [.star]) bytes = true ↔ p <+: bytes := by
  induction p generalizing bytes with
  | nil => simp [matchParts_star]
  | cons a p ih =>
      cases bytes with
      | nil => simp [matchParts]
      | cons b bytes =>
          simp only [List.map_cons, List.cons_append, matchParts, Part.accepts,
            Bool.and_eq_true, beq_iff_eq, ih, List.cons_prefix_cons]

/-- **Plain bytes and a star match what starts with these bytes.** -/
theorem globMatch_star_iff {p : List ℕ} (h : ∀ b ∈ p, isPlain b = true) (bytes : List ℕ) :
    globMatch (p ++ [0x2a]) bytes = true ↔ p <+: bytes := by
  rw [globMatch, parse_plain_append h]
  exact matchParts_bytes_star p bytes

-- `a[^b-d]?*` against `axyz`, `acyz` and `ax`; an escaped star
example : [globMatch [0x61, 0x5b, 0x5e, 0x62, 0x2d, 0x64, 0x5d, 0x3f, 0x2a]
      [0x61, 0x78, 0x79, 0x7a],
    globMatch [0x61, 0x5b, 0x5e, 0x62, 0x2d, 0x64, 0x5d, 0x3f, 0x2a] [0x61, 0x63, 0x79, 0x7a],
    globMatch [0x61, 0x5b, 0x5e, 0x62, 0x2d, 0x64, 0x5d, 0x3f, 0x2a] [0x61, 0x78],
    globMatch [0x5c, 0x2a] [0x2a], globMatch [0x5c, 0x2a] [0x61]] =
    [true, false, false, true, false] := by decide

end Glob
