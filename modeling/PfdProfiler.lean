import PfdProfiler.Double
import PfdProfiler.Ticks
import PfdProfiler.Median
import PfdProfiler.Deviation
import PfdProfiler.DeviationFacts
import PfdProfiler.DeviationExact
import PfdProfiler.Store
import PfdProfiler.Calibration
import PfdProfiler.CalibrationFacts
import PfdProfiler.StoreInit
import PfdProfiler.Report
import PfdProfiler.System
