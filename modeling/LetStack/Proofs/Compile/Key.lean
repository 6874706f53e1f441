import LetStack.Compile.Cache
import LetStack.Proofs.Text.Bytes

/-!
`cacheKey` is a digest of the digests of the content and of a text for the options. Unless these collide, a key stands
for one content and one choice of options (`cacheKey_determines`).
-/

namespace LetStack

namespace Sha256

theorem length_bigEndian (n value : Nat) : (bigEndian n value).length = n := by
  rw [bigEndian, List.length_map, List.length_reverse, List.length_range]

theorem length_hash (x : Bytes) : (hash x).length = 32 := by
  unfold hash
  simp only [List.flatMap_cons, List.flatMap_nil, List.length_append, length_bigEndian]
  rfl

/-- No two of the texts have the same digest. -/
def NoCollision (texts : List Bytes) : Prop := ∀ x ∈ texts, ∀ y ∈ texts, hash x = hash y → x = y

theorem NoCollision.subset {texts texts' : List Bytes} (h : NoCollision texts) (sub : texts' ⊆ texts) :
    NoCollision texts' :=
  fun x hx y hy => h x (sub hx) y (sub hy)

end Sha256

/-- The text that stands for the options in a key. -/
def CompileOptions.salt (opts : CompileOptions) : Bytes :=
  "ranoc/v" ++ Bytes.ofNat CacheEntry.currentSchema ++ " strict=" ++
    (if opts.strict then Bytes.ofString "true" else "false") ++ " max=" ++ Bytes.ofInt opts.limit

/-- The texts whose digests make up the key of a content. -/
def hashedFor (content : Bytes) (opts : CompileOptions) : List Bytes :=
  [content, opts.salt, Sha256.hash content ++ Sha256.hash opts.salt]

theorem cacheKey_eq (content : Digest) (opts : CompileOptions) :
    cacheKey content opts = Sha256.hash (content ++ Sha256.hash opts.salt) := by
  rw [cacheKey, Digest.combine, List.flatten_cons, List.flatten_nil, List.append_nil]
  rfl

theorem CompileOptions.salt_injective {opts opts' : CompileOptions} (h : opts.salt = opts'.salt) : opts = opts' := by
  obtain ⟨strict, limit⟩ := opts
  obtain ⟨strict', limit'⟩ := opts'
  simp only [salt, List.append_assoc, List.append_cancel_left_eq] at h
  -- the words for the strictness differ in their first letters
  have letters (x y : Bytes) : Bytes.ofString "true" ++ x ≠ Bytes.ofString "false" ++ y := by
    intro same
    have first := congrArg List.head? same
    revert first
    show some (0x74 : UInt8) = some 0x66 → False
    decide
  cases strict <;> cases strict' <;>
    simp only [Bool.false_eq_true, if_true, if_false, List.append_cancel_left_eq] at h
  · rw [Bytes.ofInt_injective h]
  · exact absurd h.symm (letters _ _)
  · exact absurd h (letters _ _)
  · rw [Bytes.ofInt_injective h]

/-- A key stands for one content and one choice of options. -/
theorem cacheKey_determines {texts : List Bytes} (clean : Sha256.NoCollision texts) {content content' : Bytes}
    {opts opts' : CompileOptions} (hashed : hashedFor content opts ⊆ texts)
    (hashed' : hashedFor content' opts' ⊆ texts)
    (same : cacheKey (Sha256.hash content) opts = cacheKey (Sha256.hash content') opts') :
    content = content' ∧ opts = opts' := by
  simp only [hashedFor, List.cons_subset] at hashed hashed'
  obtain ⟨mem, salt, both, _⟩ := hashed
  obtain ⟨mem', salt', both', _⟩ := hashed'
  rw [cacheKey_eq, cacheKey_eq] at same
  have parts := clean _ both _ both' same
  have lengths : (Sha256.hash content).length = (Sha256.hash content').length := by
    rw [Sha256.length_hash, Sha256.length_hash]
  obtain ⟨first, second⟩ := List.append_inj parts lengths
  exact ⟨clean _ mem _ mem' first, CompileOptions.salt_injective (clean _ salt _ salt' second)⟩

end LetStack
