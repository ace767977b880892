import Imijun.DragLog
import Imijun.TouchFinish
import Imijun.HintPairing
import Imijun.Placement
import Imijun.Credit
import Imijun.LogFile
import Imijun.LogRetry
import Imijun.IdeaTap
import Imijun.SlotRow
import Imijun.Shuffle
import Imijun.Verdict
import Imijun.HintDisplay
import Imijun.IdeaPanel
import Imijun.Grid
import Imijun.Relayout
import Imijun.ImportShape
import Imijun.AppCourse
import Imijun.ScreenLog
import Imijun.Finale
import Imijun.SamePicture
import Imijun.AppRecords
import Imijun.LogFolder
