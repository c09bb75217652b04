import GamePatch.Verification.LineReader.Bounds
import GamePatch.Verification.Settings.Console
import GamePatch.Verification.Settings.Failure
import GamePatch.Verification.Settings.Store
import GamePatch.Verification.Parser.Count
import GamePatch.Verification.Parser.Identity
import GamePatch.Verification.Parser.RoundTrip
import GamePatch.Verification.Numbers
import GamePatch.Verification.Apply.Arguments
import GamePatch.Verification.Apply.Width
import GamePatch.Verification.Parser.Items
import GamePatch.Verification.Parser.Keys
import GamePatch.Verification.Plugins.RoundTrip
import GamePatch.Verification.Parser.Missing
import GamePatch.Verification.Plugins.Selection
import GamePatch.Verification.Notify
import GamePatch.Verification.Parser.Growth
import GamePatch.Verification.Settings.Examined
import GamePatch.Verification.PatternScan
import GamePatch.Verification.PatchCall
import GamePatch.Verification.Parser.Escapes
import GamePatch.Verification.Parser.PatchNumbers
import GamePatch.Verification.Memory.Tokenizer
import GamePatch.Verification.Pointers.LowMem
import GamePatch.Verification.Detour.Fnid
import GamePatch.Verification.Detour.Nested
import GamePatch.Verification.RunPatch.Disk
import GamePatch.Verification.RunPatch.Game
import GamePatch.Verification.VshPatch
import GamePatch.Verification.Bootloader
import GamePatch.Verification.Bin2c
