import MarkdownLinks.Proofs.Text.PercentDecoding
import MarkdownLinks.SourceHost

/-! The path at the end of a URL. It is the target encoded, and decoding it gives the target as it is
written. A target that is written with escapes, as targets have to be, is encoded a second time: the URL
then leads to a file with percent signs in its name, and not to the file that the target names. -/

namespace MarkdownLinks.SourceHost

/-- The path at the end of the URL of a source decodes to the target as it is written. It decodes to
what the target decodes to exactly if decoding leaves the target as it is: if there is no escape in it,
or the bytes it stands for encode no text. -/
theorem decode_url_path (host : SourceHost) (target : Text) :
    ∃ path, host.url target =
        host.base ++ '/' :: ((PathShape.ofPath target).urlSegment ++ '/' :: (host.branch ++ '/' :: path)) ∧
      Percent.decode path = target ∧
      (Percent.decode path = Percent.decode target ↔
        ¬(Percent.HasEscape target ∧ Percent.Decodes target)) := by
  have hpath := Percent.decode_encodePath target
  refine ⟨Percent.encodePath target, rfl, hpath, ?_⟩
  rw [hpath, eq_comm]
  exact Percent.decode_eq_self_iff

/-- The URL of a source whose target has an escaped space leads to another file. -/
theorem decode_url_path_ne :
    let host : SourceHost := {}
    let target := "Runtime/My%20File.cs".toList
    let path := "Runtime/My%2520File.cs".toList
    host.isSource target ∧ Percent.Decodes target ∧
      host.url target = "https://github.com/wallstop/DxMessaging/blob/master/".toList ++ path ∧
      Percent.decode path ≠ Percent.decode target := by
  intro host target path
  have hpath : Percent.encodePath target = path := by decide +kernel
  have hbytes : Percent.bytes target = Utf8.encode "Runtime/My File.cs".toList := by decide +kernel
  have htarget : Utf8.decode? (Percent.bytes target).toByteArray = some "Runtime/My File.cs".toList := by
    rw [hbytes, Utf8.decode?_encode]
  refine ⟨by decide +kernel, ?_, by decide +kernel, ?_⟩
  · rw [Percent.Decodes, htarget, Option.isSome_some]
  · rw [← hpath, Percent.decode_encodePath, Percent.decode, htarget, Option.getD_some]
    decide +kernel

end MarkdownLinks.SourceHost
