import LetStack.Compile.Cache
import LetStack.Proofs.Machine.Packed

/-!
`CacheEntry.unpack?` reads what `CacheEntry.pack` wrote, if the lengths fit 32 bits (`CacheEntry.Fits`). The numbers
of files are cut to 32 bits.
-/

namespace LetStack
open MessagePack

/-- The lengths in a diagnostic fit 32 bits. -/
structure Diagnostic.Fits (d : Diagnostic) : Prop where
  message : d.message.length < 0x100000000
  notes : d.notes.length < 0x100000000
  noted : ∀ n ∈ d.notes, n.message.length < 0x100000000

/-- The severity is one of the three known ones and the code one that fits 16 bits. -/
structure Diagnostic.Known (d : Diagnostic) : Prop where
  severity : d.severity ∈ [Severity.info, .warning, .error]
  code : d.code.number < 0x10000

namespace CacheEntry

/-- The lengths in an entry fit 32 bits. -/
structure Fits (e : CacheEntry) : Prop where
  path : e.path.length < 0x100000000
  program : e.program.length < 0x100000000
  diagnostics : e.diagnostics.length < 0x100000000
  each : ∀ d ∈ e.diagnostics, d.Fits

theorem diagnostic_fits {d : Diagnostic} (short : (packDiagnostic d).length < 0x100000000) : d.Fits := by
  have message : (writeText d.message).length ≤ (packDiagnostic d).length :=
    length_le_writeRecord (.tail _ (.tail _ (.head _)))
  have notes : (if d.notes = [] then writeNil else writeList packNote d.notes).length ≤ (packDiagnostic d).length :=
    length_le_writeRecord (.tail _ (.tail _ (.tail _ (.tail _ (.tail _ (.head _))))))
  have text := length_le_writeText d.message
  have list : d.notes ≠ [] → (writeList packNote d.notes).length < 0x100000000 := by
    intro some
    rw [if_neg some] at notes
    exact Nat.lt_of_le_of_lt notes short
  refine ⟨by omega, ?_, fun n mem => ?_⟩
  · by_cases none : d.notes = []
    · rw [none]
      decide
    · exact Nat.lt_of_le_of_lt (count_le_writeList packNote (fun _ => writeRecord_pos _) d.notes) (list none)
  · have item : (packNote n).length ≤ (writeList packNote d.notes).length := length_le_writeList mem
    have field : (writeText n.message).length ≤ (packNote n).length := length_le_writeRecord (.tail _ (.head _))
    have noted := length_le_writeText n.message
    have whole := list (List.ne_nil_of_mem mem)
    omega

/-- Every length in an entry is shorter than what is written of the entry. -/
theorem fits_of_length {e : CacheEntry} (short : e.pack.length < 0x100000000) : e.Fits := by
  have path : (writeText e.path).length ≤ e.pack.length := length_le_writeRecord (.tail _ (.head _))
  have program : (writeBinary e.program).length ≤ e.pack.length :=
    length_le_writeRecord (.tail _ (.tail _ (.tail _ (.head _))))
  have diagnostics : (writeList packDiagnostic e.diagnostics).length ≤ e.pack.length :=
    length_le_writeRecord (.tail _ (.tail _ (.tail _ (.tail _ (.head _)))))
  have text := length_le_writeText e.path
  have code := length_le_writeBinary e.program
  have count := count_le_writeList packDiagnostic (fun _ => writeRecord_pos _) e.diagnostics
  refine ⟨by omega, by omega, by omega, fun d mem => diagnostic_fits ?_⟩
  have item : (packDiagnostic d).length ≤ (writeList packDiagnostic e.diagnostics).length := length_le_writeList mem
  omega

/-! ## Parts of an entry -/

theorem readSpan_reads (s : Span) : Reads (readSpan {}) (packSpan s) s := by
  have word (n : UInt32) : Reads readWord (writeWord32 n.toNat) n := readWord_reads n id
  exact readRecord_reads
    (.cons rfl (by decide) ((word s.start).map _) (.cons rfl (by decide) ((word s.stop).map _)
      (.cons rfl (by decide) ((word s.line).map _) (.cons rfl (by decide) ((word s.column).map _)
        (.cons rfl (by decide) ((word s.length).map _) (.nil _)))))) (by simp)

theorem readNote_reads {n : Note} (fits : n.message.length < 0x100000000) :
    Reads (readRecord blankNote noteFields blankNote) (packNote n) n :=
  readRecord_reads
    (.cons rfl (by decide) ((readSpan_reads n.span).map _)
      (.cons rfl (by decide) ((readText_reads fits).map _) (.nil _))) (by simp)

theorem readNotes_reads {d : Diagnostic} (fits : d.Fits) :
    Reads (readSlots blankNote (readRecord blankNote noteFields) {})
      (if d.notes = [] then writeNil else writeList packNote d.notes)
      { items := d.notes, present := !d.notes.isEmpty } := by
  split
  · next none =>
    rw [none]
    exact readSlots_nil _ _ _
  · next some =>
    have notes : Reads (readSlots blankNote (readRecord blankNote noteFields) {}) (writeList packNote d.notes)
        { items := d.notes.map id, present := true } :=
      readSlots_reads fits.notes fun n mem => readNote_reads (fits.noted n mem)
    rwa [List.map_id, ← Bool.not_false, ← List.isEmpty_eq_false_iff.2 some] at notes

/-- What is read where a diagnostic was written: the number of its file has 32 bits. -/
def readBack (d : Diagnostic) : Diagnostic := d.inFile (d.file % Nat.pow 256 4)

def draftOf (d : Diagnostic) : DiagnosticDraft where
  head := { readBack d with notes := [] }
  notes := { items := d.notes, present := !d.notes.isEmpty }

theorem headField_reads {read : Diagnostic → Reader Diagnostic} {draft : DiagnosticDraft} {x : Bytes}
    {d : Diagnostic} (h : Reads (read draft.head) x d) : Reads (headField read draft) x { draft with head := d } :=
  h.map _

theorem readDiagnostic_reads {d : Diagnostic} (known : d.Known) (fits : d.Fits) :
    Reads (readRecord {} diagnosticFields {}) (packDiagnostic d) (draftOf d) := by
  have severity : Severity.ofLevel (d.severity.level % Nat.pow 256 1) = d.severity := by
    have each : ∀ s ∈ [Severity.info, .warning, .error], Severity.ofLevel (s.level % Nat.pow 256 1) = s := by decide
    exact each _ known.severity
  have code : d.code.number % Nat.pow 256 2 = d.code.number := Nat.mod_eq_of_lt known.code
  have read : Reads (readRecord {} diagnosticFields {}) (packDiagnostic d) _ :=
    readRecord_reads
      (.cons rfl (by decide) (headField_reads ((readNat_byte d.severity.level).map _))
        (.cons rfl (by decide) (headField_reads ((readNat_word16 d.code.number).map _))
          (.cons rfl (by decide) (headField_reads ((readText_reads fits.message).map _))
            (.cons rfl (by decide) (headField_reads ((readNat_word32 d.file).map _))
              (.cons rfl (by decide) (headField_reads ((readSpan_reads d.span).map _))
                (.cons rfl (by decide) ((readNotes_reads fits).map _) (.nil _))))))) (by simp)
  rw [severity, code] at read
  exact read

theorem readDigest_reads {s d : Digest} (hs : s.length = 32) (hd : d.length = 32) :
    Reads (readDigest d) (writeBinary s) s := by
  have short : s.length < 0x100000000 := by rw [hs]; decide
  obtain ⟨code, x, header, length⟩ := writeBinary_eq short
  have bytes := (readBytes_reads s).map (· ++ d.drop s.length)
  have none : d.drop s.length = [] := by rw [hs, ← hd, List.drop_length]
  rw [header]
  refine .coded (length.bind ?_)
  dsimp only
  rw [if_neg (Nat.not_lt.2 (Nat.le_of_eq hs))]
  rw [none] at bytes ⊢
  rwa [List.append_nil] at bytes

/-! ## Entries -/

theorem entryField_reads {read : CacheEntry → Reader CacheEntry} {draft : Draft} {x : Bytes}
    {e : CacheEntry} (h : Reads (read draft.head) x e) : Reads (entryField read draft) x { draft with head := e } :=
  h.map _

theorem unpack?_pack {e : CacheEntry} (schema : e.schema = currentSchema) (hash : e.contentHash.length = 32)
    (fits : e.Fits) (known : ∀ d ∈ e.diagnostics, d.Known) :
    unpack? e.pack = some { e with diagnostics := e.diagnostics.map readBack } := by
  have diagnostics : Reads (readSlots {} (readRecord {} diagnosticFields) {})
      (writeList packDiagnostic e.diagnostics) { items := e.diagnostics.map draftOf, present := true } :=
    readSlots_reads fits.diagnostics fun d mem => readDiagnostic_reads (known d mem) (fits.each d mem)
  have cut : e.schema % Nat.pow 256 2 = e.schema := by rw [schema]; rfl
  have read : Reads (readRecord {} fields {}) e.pack
      { head := { e with schema := e.schema % Nat.pow 256 2, diagnostics := [] }
        diagnostics := { items := e.diagnostics.map draftOf, present := true } } :=
    readRecord_reads
      (.cons rfl (by decide) (entryField_reads ((readNat_word16 e.schema).map _))
        (.cons rfl (by decide) (entryField_reads ((readText_reads fits.path).map _))
          (.cons rfl (by decide) (entryField_reads ((readDigest_reads hash rfl).map _))
            (.cons rfl (by decide) (entryField_reads ((readText_binary fits.program).map _))
              (.cons rfl (by decide) (diagnostics.map _)
                (.cons rfl (by decide) (entryField_reads ((readInt64_reads e.dropped).map _))
                  (.cons rfl (by decide) (entryField_reads ((readBool_reads e.aborted).map _)) (.nil _)))))))) (by simp)
  have whole := read []
  rw [List.append_nil, cut] at whole
  rw [unpack?, whole]
  dsimp only
  rw [if_pos schema, Draft.entry, List.map_map]
  rfl

end CacheEntry
end LetStack
