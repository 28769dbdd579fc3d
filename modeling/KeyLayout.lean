import KeyLayout.Files.Tree
import KeyLayout.KeyMap.Bytes
import KeyLayout.Main
import KeyLayout.Proofs.Grammar.DeviceCode
import KeyLayout.Proofs.Grammar.Edits
import KeyLayout.Proofs.Grammar.Progress
import KeyLayout.Proofs.Grammar.Rewriting
import KeyLayout.Proofs.KeyMap.Candidates
import KeyLayout.Proofs.KeyMap.Clearing
import KeyLayout.Proofs.KeyMap.Combining
import KeyLayout.Proofs.KeyMap.Firing
import KeyLayout.Proofs.KeyMap.Matching
import KeyLayout.Proofs.KeyMap.Reencoding
import KeyLayout.Proofs.KeyMap.Truncation
import KeyLayout.Proofs.Settings.Saving
import KeyLayout.Proofs.Tool.Check
import KeyLayout.Proofs.Tool.Type
import KeyLayout.Proofs.Typing.Keeping
import KeyLayout.Proofs.Typing.Replay
import KeyLayout.Proofs.Typing.Starting
import KeyLayout.Proofs.Typing.Taps
import KeyLayout.Stream
