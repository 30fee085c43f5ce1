import StackVM.Proofs.Codec
import StackVM.Proofs.FileChanges
import StackVM.Proofs.Reassembly
import StackVM.Proofs.RunCommand

/-!
# Files through text and back

A byte stream that is disassembled, saved as text and assembled again is the same to the byte, and
it runs the same (`assemble_disassemble_file`). A file that is no byte stream is refused by all
commands that would read one.

The paths are any paths. The text may take the place of the byte stream that was listed, and the
assembled one the place of either; what is compared is the file before the text is saved with the
file after it is assembled. Where the text is saved elsewhere, the first file stays as it was
(`read_after`).
-/

set_option autoImplicit false

namespace StackVM.CommandLine

/-- The bytes that spell a text in UTF-8. -/
def textBytes (text : String) : List UInt8 := text.toUTF8.data.toList

theorem decodeText_textBytes (text : String) : decodeText (textBytes text) = .ok text := by
  have h : String.fromUTF8? ⟨(textBytes text).toArray⟩ = some text := by
    show String.fromUTF8? text.toUTF8 = some text
    rw [String.fromUTF8?, String.toUTF8_eq_toByteArray, dif_pos text.isValidUTF8]
    rfl
  rw [decodeText, h]

variable {t t₁ t₂ t' : FileTree} {input saved output : String} {bytes content : List UInt8}
  {p : Program}

/-- **A listing that was saved** assembles to the byte stream that was listed. -/
theorem invoke_assemble_listing (hp : Program.decode bytes = .ok p)
    (hsave : t.write saved (textBytes (Listing.disassemble p)) = .ok t₁)
    (hwritable : t₁.write output content = .ok t') :
    ∃ summary t₂, t₁.invoke ["assemble", saved, "-o", output] =
      ({ code := 0, stderr := summary }, t₂) ∧ t₁.write output bytes = .ok t₂ := by
  obtain ⟨hw, rfl⟩ := Program.decode_eq_ok_iff.1 hp
  obtain ⟨is, rfl⟩ := Program.wellFormed_iff.1 hw
  have hassemble := Assembly.assemble_disassemble_ofInstructions is
  have hrequest : AssembleRequest.parse [saved, "-o", output] = .ok ⟨saved, output⟩ := rfl
  have hread := FileTree.read_of_write hsave
  obtain ⟨t₂, hwrite⟩ :=
    FileTree.exists_write hwritable (Program.encode (Program.ofInstructions is))
  exact ⟨_, t₂, invoke_assemble hrequest hread (decodeText_textBytes _) hassemble hwrite, hwrite⟩

/-- A byte stream in whose place no text was saved is still there, whether or not the assembled one
was put in the same place. -/
theorem read_after (hread : t.read input = .ok bytes) (hsave : t.write saved content = .ok t₁)
    (hwrite : t₁.write output bytes = .ok t₂) (hne : t.locate input ≠ t.locate saved) :
    t₂.read input = .ok bytes := by
  obtain ⟨heq, -⟩ | ⟨-, hread₁⟩ := FileTree.read_write hsave hread
  · exact absurd heq hne
  obtain ⟨-, hread₂⟩ | ⟨-, hread₂⟩ := FileTree.read_write hwrite hread₁
  · exact hread₂
  · exact hread₂

/-- **The round trip of a file** through its listing. If its bytes are a byte stream, then the
listing, saved at any path, assembles to the same bytes at any path that can be written, and both
files run with the same report, whatever the options are. If they are none, then the file is refused
when it is listed and when it is run. -/
theorem assemble_disassemble_file (hread : t.read input = .ok bytes) :
    (∀ p, Program.decode bytes = .ok p →
      ∃ listing,
        t.invoke ["disassemble", input] = ({ code := 0, stdout := listing, stderr := "" }, t) ∧
        ∀ saved output t₁ content t', t.write saved (textBytes listing) = .ok t₁ →
          t₁.write output content = .ok t' →
          ∃ summary t₂, t₁.invoke ["assemble", saved, "-o", output] =
              ({ code := 0, stdout := "", stderr := summary }, t₂) ∧
            t₂.read output = .ok bytes ∧
            (t.locate input ≠ t.locate saved → t₂.read input = .ok bytes) ∧
            ∀ arguments, ∃ report, t.invoke ("run" :: input :: arguments) = (report, t) ∧
              t₂.invoke ("run" :: output :: arguments) = (report, t₂) ∧
              (t.locate input ≠ t.locate saved →
                t₂.invoke ("run" :: input :: arguments) = (report, t₂))) ∧
    (∀ e, Program.decode bytes = .error e →
      t.invoke ["disassemble", input] =
        ({ code := 1, stdout := "", stderr := (Refusal.bytecode e).text }, t) ∧
      ∀ arguments pairs, IsOptionList arguments pairs → requestedMemory pairs ≤ 0x40000000 →
        t.invoke ("run" :: input :: arguments) =
          ({ code := 1, stdout := "", stderr := (Refusal.bytecode e).text }, t)) := by
  constructor
  · intro p hp
    refine ⟨Listing.disassemble p, invoke_disassemble hread hp [], ?_⟩
    intro saved output t₁ content t' hsave hwritable
    obtain ⟨summary, t₂, hassemble, hwrite⟩ := invoke_assemble_listing hp hsave hwritable
    have hsame := FileTree.read_of_write hwrite
    have hkept := read_after hread hsave hwrite
    refine ⟨summary, t₂, hassemble, hsame, hkept, fun arguments => ?_⟩
    obtain ⟨report, hreport⟩ := exists_report_of_decode hp arguments
    exact ⟨report, hreport t input hread, hreport t₂ output hsame,
      fun hne => hreport t₂ input (hkept hne)⟩
  · intro e he
    refine ⟨invoke_disassemble_bytecode hread he [], fun arguments pairs hpairs hsize => ?_⟩
    exact (Rejects.decoding hpairs hsize hread he).invoke_eq

/-- A file that negates the smallest word, and one that is no byte stream. -/
def twoFiles : FileTree :=
  ⟨[(["a.koab"], .file [0x22, 0x80, 0, 0, 0, 0x15]), (["b.koab"], .file [0])]⟩

theorem assemble_disassemble_file_not :
    twoFiles.read "a.koab" = .ok [0x22, 0x80, 0, 0, 0, 0x15] ∧ twoFiles.read "b.koab" = .ok [0] ∧
    (∃ t₁ summary t₂, twoFiles.write "a.koa" (textBytes "PUSH -2147483648\nNOT\n") = .ok t₁ ∧
      t₁.invoke ["assemble", "a.koa", "-o", "c.koab"] = ({ code := 0, stderr := summary }, t₂) ∧
      t₂.read "c.koab" = .ok [0x22, 0x80, 0, 0, 0, 0x15] ∧
      t₂.read "a.koab" = .ok [0x22, 0x80, 0, 0, 0, 0x15] ∧
      ∃ report, twoFiles.invoke ["run", "a.koab", "--max-steps", "2"] = (report, twoFiles) ∧
        t₂.invoke ["run", "c.koab", "--max-steps", "2"] = (report, t₂)) ∧
    twoFiles.invoke ["run", "b.koab"] =
      ({ code := 1, stderr := "error: invalid bytecode: illegal opcode 0x00\n" }, twoFiles) := by
  have hread : twoFiles.read "a.koab" = .ok [0x22, 0x80, 0, 0, 0, 0x15] := by decide
  have hread' : twoFiles.read "b.koab" = .ok [0] := by decide
  have hp : Program.decode [0x22, 0x80, 0, 0, 0, 0x15] =
      .ok (Token.push 0x80000000 ++ [.op .not]) := by decide
  have he : Program.decode [0] = .error .illegalOpcode := by decide
  have htext : twoFiles.invoke ["disassemble", "a.koab"] =
      ({ code := 0, stdout := "PUSH -2147483648\nNOT\n" }, twoFiles) := by decide
  obtain ⟨listing, hlisting, hback⟩ := (assemble_disassemble_file hread).1 _ hp
  obtain rfl : listing = "PUSH -2147483648\nNOT\n" :=
    congrArg (·.1.stdout) (hlisting.symm.trans htext)
  obtain ⟨summary, t₂, hassemble, hsame, hkept, hruns⟩ := hback "a.koa" "c.koab" _ [] _ rfl rfl
  obtain ⟨report, hrun, hrun', -⟩ := hruns ["--max-steps", "2"]
  have hrefused := ((assemble_disassemble_file hread').2 _ he).2 [] [] .nil (by decide)
  exact ⟨hread, hread', ⟨_, summary, t₂, rfl, hassemble, hsame, hkept (by decide), report, hrun,
    hrun'⟩, hrefused⟩

end StackVM.CommandLine
