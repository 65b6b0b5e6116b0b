import ScriptTree.Proofs.Chunk

/-!
# The chunks of plain text

The recognizer of template chunks, called again where each chunk of plain text
stops, cuts the text before the next mark into chunks and then finds the mark.
-/

namespace ScriptTree

namespace Recognizer

/-- What stands behind the plain text of a template, and what is found there. -/
inductive Ending (offset : Nat) : Text → Option Verdict → Prop where
  | none : Ending offset [] none
  | backtick (rest : Text) :
      Ending offset ('\x60' :: rest) (some ⟨.templateEnd, offset + 1⟩)
  | hole (rest : Text) :
      Ending offset ('$' :: '\x7b' :: rest) (some ⟨.holeOpen, offset + 2⟩)

/-- The recognizer, called from an offset on where the chunk before stops,
finds these chunks of plain text and then something else. -/
def Finds (source : Text) (last : Option Verdict) : Nat → List Text → Prop
  | offset, [] => (template (Probe.ofOffset source offset)).verdict = last
  | offset, chunk :: later =>
      (template (Probe.ofOffset source offset)).verdict =
          some ⟨.templateText, offset + Text.size chunk⟩ ∧
        Finds source last (offset + Text.size chunk) later

/-- Neither a line break of two characters nor a backslash and what it hides
are cut in two between two parts of a text. -/
structure Seam (chunk behind : Text) : Prop where
  lineBreak : chunk.getLast? = some '\r' → behind.head? ≠ some '\n'
  escape : Complete chunk ∨ behind = []

/-- How the plain text from an offset on is cut into chunks. -/
structure Chunked (source : Text) (offset : Nat) (text : Text) (chunks : List Text)
    (rest : Text) (last : Option Verdict) : Prop where
  parts : text = plainText text ++ rest
  covers : chunks.flatten = plainText text
  nonempty : ∀ chunk ∈ chunks, chunk ≠ []
  finds : Finds source last offset chunks
  ending : Ending (offset + Text.size (plainText text)) rest last
  seams : ∀ earlier chunk later, chunks = earlier ++ chunk :: later →
    Seam chunk (later.flatten ++ rest)

namespace Chunked

variable {source text : Text} {offset : Nat}

/-- Where the plain text is empty, the mark is found. -/
theorem mark {last : Option Verdict} (plain : plainText text = [])
    (found : (template (Probe.ofOffset source offset)).verdict = last)
    (ending : Ending offset text last) : Chunked source offset text [] text last where
  parts := by rw [plain, List.nil_append]
  covers := by rw [plain, List.flatten_nil]
  nonempty := by simp
  finds := found
  ending := by rwa [plain]
  seams := by simp

/-- One more chunk in front of others. -/
theorem cons {chunk more rest : Text} {chunks : List Text} {last : Option Verdict}
    (found : (template (Probe.ofOffset source offset)).verdict =
      some ⟨.templateText, offset + Text.size chunk⟩)
    (nonempty : chunk ≠ []) (plain : plainText (chunk ++ more) = chunk ++ plainText more)
    (seam : Seam chunk more)
    (chunked : Chunked source (offset + Text.size chunk) more chunks rest last) :
    Chunked source offset (chunk ++ more) (chunk :: chunks) rest last where
  parts := by rw [plain, List.append_assoc, ← chunked.parts]
  covers := by rw [plain, List.flatten_cons, chunked.covers]
  nonempty := List.forall_mem_cons.mpr ⟨nonempty, chunked.nonempty⟩
  finds := ⟨found, chunked.finds⟩
  ending := by
    have ending := chunked.ending
    rwa [Nat.add_assoc, ← Text.size_append, ← plain] at ending
  seams := by
    intro earlier other later split
    cases earlier with
    | nil =>
        obtain ⟨rfl, rfl⟩ := List.cons.inj split
        rwa [chunked.covers, ← chunked.parts]
    | cons first earlier =>
        obtain ⟨-, split⟩ := List.cons.inj split
        exact chunked.seams earlier other later split

end Chunked

/-- From every character boundary on, the plain text is cut into chunks up to
the next mark or to the end. -/
theorem template_chunked (before text : Text) :
    ∃ chunks rest last,
      Chunked (before ++ text) (Text.size before) text chunks rest last := by
  -- The induction is on the text that is left, which gets shorter with each chunk.
  induction size : text.length using Nat.strongRecOn generalizing before text with
  | _ size ih =>
      subst size
      have on := Place.on_behind before text
      have calls : Probe.ofOffset (before ++ text) (Text.size before) =
          Probe.ofPlace (Text.size (before ++ text)) ⟨Text.size before, text⟩ :=
        congrArg (Probe.ofPlace _) (Place.ofOffset_append before text)
      cases found : (template (Probe.ofOffset (before ++ text) (Text.size before))).verdict with
      | none =>
          rw [calls] at found
          obtain rfl : text = [] := template_none found
          exact ⟨[], [], none, .mark rfl (calls ▸ found) .none⟩
      | some verdict =>
          obtain ⟨mark, stop⟩ := verdict
          have located := found
          rw [calls] at located
          obtain ⟨chunk, covers, cut, offset⟩ := template_cut on located
          generalize Place.moveTo ⟨Text.size before, text⟩ stop = later at covers cut offset
          obtain ⟨behind, rest⟩ := later
          obtain rfl : text = chunk ++ rest := covers.covers.rest
          obtain rfl : stop = Text.size before + Text.size chunk :=
            offset.symm.trans covers.covers.offset
          have spelled := covers.spelled
          cases mark with
          | templateText =>
              have shorter : rest.length < (chunk ++ rest).length := by
                have := List.length_pos_iff.mpr covers.nonempty
                rw [List.length_append]
                omega
              obtain ⟨chunks, left, last, chunked⟩ := ih _ shorter (before ++ chunk) rest rfl
              rw [List.append_assoc, Text.size_append] at chunked
              exact ⟨chunk :: chunks, left, last,
                .cons found covers.nonempty cut.1 ⟨covers.seam, cut.2⟩ chunked⟩
          | templateEnd =>
              obtain rfl : chunk = ['\x60'] := spelled
              exact ⟨[], _, _, .mark cut found (.backtick rest)⟩
          | holeOpen =>
              obtain rfl : chunk = ['$', '\x7b'] := spelled
              exact ⟨[], _, _, .mark cut found (.hole rest)⟩
          | _ => cases cut

end Recognizer

end ScriptTree
